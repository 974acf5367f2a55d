/-
How a type string is spelled in tokens.

`Spells` says what a text of tokens looks like: every token is written out, behind any number of
blanks.  It says nothing about where one token ends and the next begins, so `ab` spells one name and
also two.  `tokensFrom` takes the longest token at each place, and gives up where there is none.

What it divides a text into the text spells.  Conversely it finds the tokens that a text spells
where no two of them are words, names or numbers, side by side: then a blank or a mark ends every
word.
-/
import Mathlib.Data.List.Chain
import TreeTyping.Proofs.Except
import TreeTyping.TypeText

namespace TreeTyping.TypeText

open List

variable {cs rest : List Char} {ts : List Token} {token : Token} {c : Char}

/-! ### Characters -/

/-- The characters of a name: a letter or an underscore, then letters, digits and underscores. -/
def IsName (cs : List Char) : Prop :=
  ∃ c rest, cs = c :: rest ∧ startsName c = true ∧ ∀ d ∈ rest, continuesName d = true

/-- The text does not start with a character of a kind. -/
def StartsWithout (p : Char → Bool) (cs : List Char) : Prop := ∀ c ∈ cs.head?, p c = false

theorem startsName_iff : startsName c = true ↔
    (65 ≤ c.toNat ∧ c.toNat ≤ 90) ∨ (97 ≤ c.toNat ∧ c.toNat ≤ 122) ∨ c.toNat = 95 := by
  have hletter : c.isAlpha = (decide ('A'.val ≤ c.val ∧ c.val ≤ 'Z'.val) ||
      (decide ('a'.val ≤ c.val) && decide (c.val ≤ 'z'.val))) := rfl
  simp only [startsName, hletter, Bool.or_eq_true, Bool.and_eq_true, decide_eq_true_eq, beq_iff_eq,
    UInt32.le_iff_toNat_le, ← Char.toNat_inj, Char.toNat_val]
  simp only [Char.reduceToNat]
  omega

theorem isDigit_iff : c.isDigit = true ↔ 48 ≤ c.toNat ∧ c.toNat ≤ 57 := by
  simp only [Char.isDigit, Bool.and_eq_true, decide_eq_true_eq, ge_iff_le, UInt32.le_iff_toNat_le,
    Char.toNat_val]
  simp only [Char.reduceToNat]

theorem continuesName_iff : continuesName c = true ↔ startsName c = true ∨ c.isDigit = true := by
  simp only [continuesName, startsName, Char.isAlphanum, Bool.or_eq_true]
  exact or_right_comm

theorem digitValue?_of_isDigit (h : c.isDigit = true) :
    Text.digitValue? c = some (c.toNat - 48) := by
  rw [isDigit_iff] at h
  have hascii : c.toNat < 128 := by omega
  simp [Text.digitValue?, Char.le_def, UInt32.le_iff_toNat_le, hascii, h]

/-- A digit is one of the ten characters from the zero of its script on. -/
theorem exists_zero_of_isDigit (h : Text.isDigit c = true) :
    ∃ z ∈ Text.zeroDigits, z ≤ c.toNat ∧ c.toNat ≤ z + 9 := by
  unfold Text.isDigit Text.digitValue? at h
  split at h
  · split at h
    · next hc =>
        have hc : c.isDigit = true := by simpa [Char.isDigit, Char.le_def] using hc
        exact ⟨48, by decide, isDigit_iff.1 hc⟩
    · cases h
  · rw [Option.isSome_map, find?_isSome] at h
    simpa using h

theorem isDigit_alone (h : Text.isDigit c = true) :
    startsName c = false ∧ Text.isBlank c = false := by
  obtain ⟨z, hz, hle, hge⟩ := exists_zero_of_isDigit h
  have hall : (Text.zeroDigits.all fun z => (z == 48 || decide (128 ≤ z)) &&
      Text.blankRanges.all fun r => decide (z + 9 < r.1) || decide (r.2 < z)) = true := by decide
  have hzero := all_eq_true.1 hall z hz
  simp only [Bool.and_eq_true, Bool.or_eq_true, beq_iff_eq, decide_eq_true_eq, all_eq_true] at hzero
  obtain ⟨hascii, hblank⟩ := hzero
  constructor
  · rw [Bool.eq_false_iff, ne_eq, startsName_iff]
    omega
  · simp only [Text.isBlank, any_eq_false, Bool.and_eq_true, decide_eq_true_eq]
    intro r hr
    have := hblank r hr
    omega

theorem isBlank_of_continuesName (h : continuesName c = true) : Text.isBlank c = false := by
  rw [continuesName_iff, startsName_iff, isDigit_iff] at h
  simp only [Text.isBlank, Text.blankRanges, any_cons, any_nil, Bool.or_false, Bool.or_eq_false_iff,
    Bool.and_eq_false_iff, decide_eq_false_iff_not]
  omega

theorem isMark_alone (h : isMark c = true) :
    Text.isBlank c = false ∧ continuesName c = false ∧ startsName c = false ∧
      Text.isDigit c = false := by
  have hall : (['[', ']', '\x7b', '\x7d', ',', ':'].all fun c => !Text.isBlank c &&
    !continuesName c &&
      !startsName c && !Text.isDigit c) = true := by decide
  simpa [and_assoc] using all_eq_true.1 hall c (contains_iff_mem.1 h)

/-- A run of characters of a kind is taken up to where the rest does not go on with it. -/
theorem takeWhile_run {p : Char → Bool} {run : List Char} (hrun : ∀ c ∈ run, p c = true)
    (hrest : StartsWithout p rest) :
    (run ++ rest).takeWhile p = run ∧ (run ++ rest).dropWhile p = rest := by
  rw [takeWhile_append_of_pos hrun, dropWhile_append_of_pos hrun]
  cases rest with
  | nil => simp
  | cons c rest =>
    have hc : p c = false := hrest c rfl
    simp [hc]

/-! ### Tokens -/

namespace Token

/-- The characters of a token. -/
def chars (token : Token) : List Char := token.text.toList

@[simp] theorem chars_name (s : String) : (name s).chars = s.toList := rfl

@[simp] theorem chars_digits (ds : List Char) : (digits ds).chars = ds := String.toList_ofList

@[simp] theorem chars_mark (c : Char) : (mark c).chars = [c] := String.toList_singleton c

/-- Whether a token is a name or a number. -/
def isWord : Token → Bool
  | .mark _ => false
  | _ => true

/-- Whether a token is a number. -/
def isNumber : Token → Bool
  | .digits _ => true
  | _ => false

/-- The token is one that can be written. -/
def Proper : Token → Prop
  | .name s => IsName s.toList
  | .digits ds => ds ≠ [] ∧ ∀ d ∈ ds, Text.isDigit d = true
  | .mark c => isMark c = true

theorem Proper.not_blank (h : token.Proper) : ∀ c ∈ token.chars, Text.isBlank c = false := by
  intro d hd
  cases token with
  | name s =>
    obtain ⟨c, more, hcs, hc, hmore⟩ := h
    rw [chars_name, hcs] at hd
    rcases mem_cons.1 hd with rfl | hd
    · exact isBlank_of_continuesName (continuesName_iff.2 (.inl hc))
    · exact isBlank_of_continuesName (hmore d hd)
  | digits ds =>
    rw [chars_digits] at hd
    exact (isDigit_alone (h.2 d hd)).2
  | mark c =>
    rw [chars_mark] at hd
    obtain rfl := mem_singleton.1 hd
    exact (isMark_alone h).1

theorem Proper.chars_ne_nil (h : token.Proper) : token.chars ≠ [] := by
  cases token with
  | name s =>
    obtain ⟨c, more, hcs, -⟩ := h
    simp [hcs]
  | digits ds => simpa using h.1
  | mark c => simp

end Token

/-- A token at the front of a text is followed by the rest. -/
theorem nextToken_chars (h : nextToken cs = some (token, rest)) :
    token.Proper ∧ cs = token.chars ++ rest := by
  cases cs with
  | nil => cases h
  | cons c cs =>
    rw [nextToken] at h
    split at h
    · next hc =>
        cases h
        refine ⟨⟨c, _, String.toList_ofList, hc, all_eq_true.1 all_takeWhile⟩, ?_⟩
        rw [Token.chars_name, String.toList_ofList, cons_append, takeWhile_append_dropWhile]
    · split at h
      · next hc =>
          cases h
          refine ⟨⟨cons_ne_nil _ _, forall_mem_cons.2 ⟨hc, all_eq_true.1 all_takeWhile⟩⟩, ?_⟩
          rw [Token.chars_digits, cons_append, takeWhile_append_dropWhile]
      · split at h
        · next hc =>
            cases h
            exact ⟨hc, by simp⟩
        · cases h

/-- A token is found at the front of a text that does not go on with it. -/
theorem nextToken_of_proper (h : token.Proper)
    (hrest : token.isWord = true → StartsWithout continuesName rest ∧
      StartsWithout Text.isDigit rest) :
    nextToken (token.chars ++ rest) = some (token, rest) := by
  cases token with
  | name s =>
    obtain ⟨c, more, hcs, hc, hmore⟩ := h
    obtain ⟨htake, hdrop⟩ := takeWhile_run hmore (hrest rfl).1
    rw [Token.chars_name, hcs, cons_append, nextToken, if_pos hc, htake, hdrop, ← hcs,
      String.ofList_toList]
  | digits ds =>
    obtain ⟨c, more, rfl⟩ := exists_cons_of_ne_nil h.1
    obtain ⟨hc, hmore⟩ := forall_mem_cons.1 h.2
    obtain ⟨htake, hdrop⟩ := takeWhile_run hmore (hrest rfl).2
    have hname : ¬startsName c = true := by simp [(isDigit_alone hc).1]
    rw [Token.chars_digits, cons_append, nextToken, if_neg hname, if_pos hc, htake, hdrop]
  | mark c =>
    obtain ⟨-, -, hname, hdigit⟩ := isMark_alone h
    have hmark : isMark c = true := h
    simp [nextToken, hname, hdigit, hmark]

/-! ### Texts of tokens -/

/-- All characters are blanks. -/
def Blank (cs : List Char) : Prop := ∀ c ∈ cs, Text.isBlank c = true

/-- A text spells tokens: each is written out, behind any number of blanks. -/
inductive Spells : List Char → List Token → Prop
  | nil : Spells [] []
  | cons {blanks rest : List Char} {token : Token} {ts : List Token} (hblanks : Blank blanks)
      (htoken : token.Proper)
      (hrest : Spells rest ts) : Spells (blanks ++ (token.chars ++ rest)) (token :: ts)

/-- No two words stand side by side.  Where lengths come `last`, no comma stands behind a number. -/
def Apart (last : Bool) (ts : List Token) : Prop :=
  ts.IsChain fun a b => (a.isWord = false ∨ b.isWord = false) ∧
    (last = true → a.isNumber = true → b ≠ .mark ',')

namespace Spells

theorem single (token : Token) (h : token.Proper) : Spells token.chars [token] := by
  simpa using Spells.cons (forall_mem_nil _) h .nil

theorem mark (h : isMark c = true) : Spells [c] [.mark c] := by
  simpa using single (.mark c) h

theorem append {cs' : List Char} {ts' : List Token} (h : Spells cs ts) (h' : Spells cs' ts') :
    Spells (cs ++ cs') (ts ++ ts') := by
  induction h with
  | nil => exact h'
  | cons hblanks htoken _ ih => simpa using Spells.cons hblanks htoken ih

/-- Another blank may stand in front. -/
theorem blank {b : Char} (h : Spells cs ts) (hne : ts ≠ []) (hb : Text.isBlank b = true) :
    Spells (b :: cs) ts := by
  cases h with
  | nil => exact absurd rfl hne
  | cons hblanks htoken hrest => exact .cons (forall_mem_cons.2 ⟨hb, hblanks⟩) htoken hrest

end Spells

/-- What is left of a text that starts with blanks and does not go on with one. -/
theorem dropWhile_blanks {blanks : List Char} (hblanks : Blank blanks) (h : token.Proper)
    (rest : List Char) :
    (blanks ++ (token.chars ++ rest)).dropWhile Text.isBlank = token.chars ++ rest := by
  refine (takeWhile_run hblanks fun c hc => ?_).2
  obtain ⟨d, ds, hds⟩ := exists_cons_of_ne_nil h.chars_ne_nil
  rw [hds] at hc
  cases hc
  exact h.not_blank c (hds ▸ mem_cons_self)

/-- **A text spells the tokens that it divides into.** -/
theorem spells_of_tokensFrom {fuel position : Nat} (h : tokensFrom fuel position cs = .ok ts) :
    Spells cs ts := by
  fun_induction tokensFrom fuel position cs generalizing ts with
  | case1 =>
    cases h
    exact .nil
  | case2 => cases h
  | case3 => cases h
  | case4 fuel position cs hne token rest hnext ih =>
    obtain ⟨more, hmore, hts⟩ := Except.bind_eq_ok.1 h
    cases hts
    obtain ⟨htoken, hcs⟩ := nextToken_chars hnext
    have hall : cs = cs.takeWhile Text.isBlank ++ (token.chars ++ rest) := by
      rw [← hcs, takeWhile_append_dropWhile]
    rw [hall]
    exact .cons (all_eq_true.1 all_takeWhile) htoken (ih hmore)

/-- A text whose first token is a mark does not start with a character of a word. -/
theorem Spells.starts (h : Spells cs ts) (hfirst : ∀ a ∈ ts.head?, a.isWord = false) :
    StartsWithout continuesName cs ∧ StartsWithout Text.isDigit cs := by
  have hstart : ∀ c ∈ cs.head?, Text.isBlank c = true ∨ isMark c = true := by
    intro c hc
    cases h with
    | nil => cases hc
    | @cons blanks _ token _ hblanks htoken _ =>
      cases blanks with
      | cons b blanks =>
        cases hc
        exact .inl (hblanks c mem_cons_self)
      | nil =>
        cases token with
        | mark d =>
          rw [Token.chars_mark] at hc
          cases hc
          exact .inr htoken
        | name | digits => cases hfirst _ rfl
  constructor
  · intro c hc
    rcases hstart c hc with hblank | hmark
    · by_contra hname
      rw [isBlank_of_continuesName (by simpa using hname)] at hblank
      cases hblank
    · exact (isMark_alone hmark).2.1
  · intro c hc
    rcases hstart c hc with hblank | hmark
    · by_contra hdigit
      rw [(isDigit_alone (by simpa using hdigit)).2] at hblank
      cases hblank
    · exact (isMark_alone hmark).2.2.2

/-- **A text that spells tokens divides into them, where no two words stand side by side.** -/
theorem tokensFrom_of_spells {last : Bool} (h : Spells cs ts) (hapart : Apart last ts) {fuel : Nat}
    (position : Nat) (hfuel : cs.length ≤ fuel) : tokensFrom fuel position cs = .ok ts := by
  induction h generalizing fuel position with
  | nil => cases fuel <;> rfl
  | @cons blanks rest token ts hblanks htoken hrest ih =>
    obtain ⟨hnext, hapart⟩ := isChain_cons.1 hapart
    have hlength := length_pos_of_ne_nil htoken.chars_ne_nil
    simp only [length_append] at hfuel
    obtain ⟨fuel, rfl⟩ : ∃ k, fuel = k + 1 := ⟨fuel - 1, by omega⟩
    have hfront : nextToken (token.chars ++ rest) = some (token, rest) := by
      refine nextToken_of_proper htoken fun hword => hrest.starts fun a ha => ?_
      exact (hnext a ha).1.resolve_left (by simp [hword])
    rw [tokensFrom]
    · rw [dropWhile_blanks hblanks htoken, hfront]
      exact Except.bind_eq_ok.2 ⟨ts, ih hapart _ (by omega), rfl⟩
    · intro hnil
      simp [htoken.chars_ne_nil] at hnil

/-- Blanks at the end of a text of tokens are all that is dropped there. -/
theorem Spells.dropTrailingBlanks (h : Spells cs ts) {blanks : List Char} (hblanks : Blank blanks) :
    Text.dropTrailingBlanks (cs ++ blanks) = cs := by
  have hlast : StartsWithout Text.isBlank cs.reverse := by
    rw [StartsWithout, head?_reverse]
    induction h with
    | nil => exact fun c hc => absurd hc (Option.not_mem_none c)
    | @cons _ rest token _ _ htoken _ ih =>
      intro c hc
      rw [getLast?_append, getLast?_append, Option.mem_def] at hc
      rcases hrest : rest.getLast? with _ | d
      · rw [hrest] at hc
        rcases hchars : token.chars.getLast? with _ | d
        · exact absurd (getLast?_eq_none_iff.1 hchars) htoken.chars_ne_nil
        · rw [hchars] at hc
          cases hc
          exact htoken.not_blank c (mem_of_getLast? hchars)
      · rw [hrest] at hc
        cases hc
        exact ih c hrest
  rw [Text.dropTrailingBlanks, reverse_append,
    (takeWhile_run (by simpa [Blank] using hblanks) hlast).2, reverse_reverse]

/-- A text is what is left of it without the blanks at its end, and these. -/
theorem exists_trailing_blanks (cs : List Char) :
    ∃ blanks, cs = Text.dropTrailingBlanks cs ++ blanks ∧ Blank blanks := by
  refine ⟨(cs.reverse.takeWhile Text.isBlank).reverse, ?_, ?_⟩
  · rw [Text.dropTrailingBlanks, ← reverse_append, takeWhile_append_dropWhile, reverse_reverse]
  · intro c hc
    exact all_eq_true.1 all_takeWhile c (mem_reverse.1 hc)

/-! ### Numbers -/

theorem readDigits_foldl {ds : List Char} (h : ∀ d ∈ ds, d.isDigit = true) (n : Nat) :
    ds.foldl (fun n c => 10 * n + (Text.digitValue? c).getD 0) n = Nat.ofDigitChars 10 ds n := by
  induction ds generalizing n with
  | nil => rfl
  | cons d ds ih =>
    obtain ⟨hd, hds⟩ := forall_mem_cons.1 h
    rw [foldl_cons, digitValue?_of_isDigit hd, ih hds, Nat.ofDigitChars_cons]
    rfl

theorem readDigits_toDigits (n : Nat) : Text.readDigits (Nat.toDigits 10 n) = n := by
  have hdigits : ∀ d ∈ Nat.toDigits 10 n, d.isDigit = true := fun d hd =>
    Nat.isDigit_of_mem_toDigits (by decide) (by decide) hd
  rw [Text.readDigits, readDigits_foldl hdigits, Nat.ofDigitChars_toDigits (by decide) (by decide)]

end TreeTyping.TypeText
