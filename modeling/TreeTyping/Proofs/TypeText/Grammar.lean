/-
Which texts are types.

`Derives` is the grammar of annotations over tokens, and `Writes` that of texts: the tokens are
spelled out with any blanks between them, and blanks may stand at the end.  What `read` reads is
derived by the tokens it uses up, and what is derived is read from them, so a text is read exactly
when it writes a type.

A length may stand behind any argument but the first, and of several the last counts.  In the
grammar in which a length comes last there is at most one, and nothing is dropped.  The two differ
only where a comma stands behind a number.
-/
import TreeTyping.Proofs.TypeText.Tokens
import TreeTyping.Tree.Make

namespace TreeTyping.TypeText

open List TreeTyping.Except

variable {last : Bool} {text : String} {ts used more : List Token} {t : TypeText}
  {args : List TypeText} {lengths : List Nat}

/-! ### The grammar -/

mutual

/--
The tokens derive a type: a name, a name with arguments in brackets, a set or a map.  If a length
must come `last`, there is at most one in brackets, and no argument behind it; otherwise the last of
them counts.
-/
inductive Derives (last : Bool) : List Token → TypeText → Prop
  | named (name : String) : Derives last [.name name] (.named name)
  | applied {head : String} {ts more : List Token} {first : TypeText} {args : List TypeText}
      {lengths : List Nat}
      (hfirst : Derives last ts first) (hmore : Arguments last more args lengths) :
      Derives last ([.name head, .mark '['] ++ ts ++ more ++ [.mark ']'])
        (.applied head (first :: args) lengths.getLast?)
  | set {ts : List Token} {element : TypeText} (helement : Derives last ts element) :
      Derives last ([.mark '\x7b'] ++ ts ++ [.mark '\x7d']) (.applied "set" [element] none)
  | map {ks vs : List Token} {key value : TypeText} (hkey : Derives last ks key)
      (hvalue : Derives last vs value) :
      Derives last ([.mark '\x7b'] ++ ks ++ [.mark ':'] ++ vs ++ [.mark '\x7d'])
        (.applied "map" [key, value] none)

/-- The tokens derive the arguments behind the first, each behind a comma, with their lengths. -/
inductive Arguments (last : Bool) : List Token → List TypeText → List Nat → Prop
  | nil : Arguments last [] [] []
  | type {ts more : List Token} {arg : TypeText} {args : List TypeText} {lengths : List Nat}
      (harg : Derives last ts arg) (hmore : Arguments last more args lengths) :
      Arguments last ([.mark ','] ++ ts ++ more) (arg :: args) lengths
  | length {ds : List Char} {more : List Token} {args : List TypeText} {lengths : List Nat}
      (hmore : Arguments last more args lengths) (hlast : last = true → more = []) :
      Arguments last ([.mark ',', .digits ds] ++ more) args (Text.readDigits ds :: lengths)

end

/-- The text writes a type: it spells tokens that derive it, and there may be blanks at its end. -/
def Writes (last : Bool) (text : String) (t : TypeText) : Prop :=
  ∃ cs blanks ts, text.toList = cs ++ blanks ∧ Blank blanks ∧ Spells cs ts ∧ Derives last ts t

/-! ### What is read is derived -/

theorem expectMark_eq_ok {c : Char} {rest : List Token} :
    expectMark text c ts = .ok rest ↔ ts = .mark c :: rest := by
  unfold expectMark
  split
  · next d more =>
      split
      · next hd => simp_all
      · next hd => simp_all
  · next hother =>
      constructor
      · intro h
        cases h
      · intro h
        exact absurd h (hother c rest)

/-- **What is read from tokens is derived by those that are used up.** -/
theorem derives_of_read (text : String) :
    (∀ fuel ts t rest, read text fuel ts = .ok (t, rest) → ∃ used, ts = used ++ rest ∧
      Derives false used t) ∧
    ∀ fuel length ts args length' rest, readArguments text fuel length ts = .ok
      (args, length', rest) →
      ∃ used lengths, ts = used ++ rest ∧ Arguments false used args lengths ∧
        length' = lengths.getLast?.or length := by
  refine read.mutual_induct _ _ ?outOfFuel ?nothing ?braces ?otherMark ?digits ?applied ?named
    ?outOfFuelArguments ?length ?argument ?last
  case outOfFuel =>
    intro ts t rest h
    rw [read] at h
    cases h
  case nothing =>
    intro fuel t rest h
    rw [read] at h
    cases h
  case braces =>
    intro fuel c ts hc ihfirst ih t rest h
    obtain rfl := eq_of_beq hc
    rw [read, if_pos hc] at h
    obtain ⟨⟨first, behind⟩, hfirst, hmore⟩ := bind_eq_ok.1 h
    obtain ⟨used, rfl, hderives⟩ := ihfirst _ _ hfirst
    dsimp only at hmore
    split at hmore
    · obtain ⟨⟨value, close⟩, hvalue, hmore⟩ := bind_eq_ok.1 hmore
      obtain ⟨after, hclose, hmore⟩ := bind_eq_ok.1 hmore
      cases hmore
      obtain ⟨others, rfl, hderives'⟩ := ih _ _ _ hvalue
      obtain rfl := expectMark_eq_ok.1 hclose
      exact ⟨_, by simp, .map hderives hderives'⟩
    · obtain ⟨after, hclose, hmore⟩ := bind_eq_ok.1 hmore
      cases hmore
      obtain rfl := expectMark_eq_ok.1 hclose
      exact ⟨_, by simp, .set hderives⟩
  case otherMark =>
    intro fuel c ts hc t rest h
    rw [read, if_neg hc] at h
    cases h
  case digits =>
    intro fuel ds ts t rest h
    rw [read] at h
    cases h
  case applied =>
    intro fuel head ts ihfirst ihmore t rest h
    rw [read] at h
    obtain ⟨⟨first, behind⟩, hfirst, h⟩ := bind_eq_ok.1 h
    obtain ⟨⟨args, length, close⟩, hargs, h⟩ := bind_eq_ok.1 h
    obtain ⟨after, hclose, h⟩ := bind_eq_ok.1 h
    cases h
    obtain ⟨used, rfl, hderives⟩ := ihfirst _ _ hfirst
    obtain ⟨others, lengths, rfl, harguments, rfl⟩ := ihmore _ _ _ _ hargs
    obtain rfl := expectMark_eq_ok.1 hclose
    rw [Option.or_none]
    exact ⟨_, by simp, .applied hderives harguments⟩
  case named =>
    intro fuel head ts hother t rest h
    rw [read] at h
    · cases h
      exact ⟨_, rfl, .named head⟩
    · exact hother
  case outOfFuelArguments =>
    intro length ts args length' rest h
    rw [readArguments] at h
    cases h
  case length =>
    intro fuel length ds ts ih args length' rest h
    rw [readArguments] at h
    obtain ⟨used, lengths, rfl, harguments, rfl⟩ := ih _ _ _ h
    refine ⟨[.mark ',', .digits ds] ++ used, _, rfl, .length harguments Bool.noConfusion, ?_⟩
    rw [getLast?_cons]
    cases lengths.getLast? <;> rfl
  case argument =>
    intro fuel length ts hother iharg ihmore args length' rest h
    rw [readArguments] at h
    · obtain ⟨⟨arg, behind⟩, harg, h⟩ := bind_eq_ok.1 h
      obtain ⟨⟨others, length, after⟩, hargs, h⟩ := bind_eq_ok.1 h
      cases h
      obtain ⟨used, rfl, hderives⟩ := iharg _ _ harg
      obtain ⟨_, lengths, rfl, harguments, rfl⟩ := ihmore _ _ _ _ hargs
      exact ⟨_, _, by simp, .type hderives harguments, rfl⟩
    · exact hother
  case last =>
    intro fuel length ts hdigits hother args length' rest h
    rw [readArguments] at h
    · cases h
      exact ⟨[], [], rfl, .nil, rfl⟩
    · exact hdigits
    · exact hother

/-! ### What is derived is read -/

theorem Derives.ne_nil (h : Derives last used t) : used ≠ [] := by
  cases h <;> simp

/-- A type does not start with a number. -/
theorem Derives.front (h : Derives last used t) {ds : List Char} {rest : List Token} :
    used ++ more ≠ .digits ds :: rest := by
  cases h <;> simp

/-- Behind an argument stands a comma or the closing bracket. -/
theorem Arguments.front (h : Arguments last used args lengths) (more rest : List Token) :
    used ++ .mark ']' :: more ≠ .mark '[' :: rest := by
  cases h <;> simp

mutual

/-- **A type that tokens derive is read from them, where no bracket follows.** -/
theorem Derives.read (text : String) : ∀ {used : List Token} {t : TypeText}, Derives last used t →
    ∀ (fuel : Nat) (more : List Token), used.length ≤ fuel → (∀ rest, more ≠ .mark '[' :: rest) →
      read text fuel (used ++ more) = .ok (t, more)
  | _, _, .named name, fuel + 1, more, _, hmore => by
      rw [singleton_append, TypeText.read]
      exact hmore
  | _, _, .applied hfirst hargs, fuel + 1, more, hfuel, _ => by
      simp only [length_cons, length_append, length_nil] at hfuel
      have hread := hfirst.read text fuel _ (by omega) (hargs.front more)
      have hread' := hargs.read text fuel none more (by omega)
      simp only [cons_append, append_assoc, nil_append, TypeText.read]
      refine bind_eq_ok.2 ⟨_, hread, bind_eq_ok.2 ⟨_, hread', ?_⟩⟩
      rw [Option.or_none]
      exact bind_eq_ok.2 ⟨_, expectMark_eq_ok.2 rfl, rfl⟩
  | _, _, .set helement, fuel + 1, more, hfuel, _ => by
      simp only [length_cons, length_append, length_nil] at hfuel
      have hread := helement.read text fuel (.mark '\x7d' :: more) (by omega) (by simp)
      simp only [cons_append, append_assoc, nil_append, TypeText.read]
      exact bind_eq_ok.2 ⟨_, hread, bind_eq_ok.2 ⟨_, expectMark_eq_ok.2 rfl, rfl⟩⟩
  | _, _, @Derives.map _ _ vs _ _ hkey hvalue, fuel + 1, more, hfuel, _ => by
      simp only [length_cons, length_append, length_nil] at hfuel
      have hread := hkey.read text fuel (.mark ':' :: (vs ++ .mark '\x7d' :: more))
        (by omega) (by simp)
      have hread' := hvalue.read text fuel (.mark '\x7d' :: more) (by omega) (by simp)
      simp only [cons_append, append_assoc, nil_append, TypeText.read]
      exact bind_eq_ok.2 ⟨_, hread, bind_eq_ok.2 ⟨_, hread',
        bind_eq_ok.2 ⟨_, expectMark_eq_ok.2 rfl, rfl⟩⟩⟩

theorem Arguments.read (text : String) :
    ∀ {used : List Token} {args : List TypeText} {lengths : List Nat},
    Arguments last used args lengths → ∀ (fuel : Nat) (length : Option Nat) (more : List Token),
      used.length < fuel → readArguments text fuel length (used ++ .mark ']' :: more) =
        .ok (args, lengths.getLast?.or length, .mark ']' :: more)
  | _, _, _, .nil, fuel + 1, length, more, _ => by
      rw [nil_append, readArguments]
      · rfl
      · simp
      · simp
  | _, _, _, .type harg hmore, fuel + 1, length, more, hfuel => by
      simp only [length_cons, length_append, length_nil] at hfuel
      have hread := harg.read text fuel _ (by omega) (hmore.front more)
      have hread' := hmore.read text fuel length more (by omega)
      simp only [cons_append, append_assoc, nil_append]
      rw [readArguments]
      · exact bind_eq_ok.2 ⟨_, hread, bind_eq_ok.2 ⟨_, hread', rfl⟩⟩
      · exact fun _ _ => harg.front
  | _, _, _, @Arguments.length _ _ _ _ lengths hmore _, fuel + 1, length, more, hfuel => by
      simp only [length_append, length_cons] at hfuel
      simp only [cons_append, nil_append]
      rw [readArguments, hmore.read text fuel _ more (by omega), getLast?_cons]
      cases lengths.getLast? <;> rfl

end

/-! ### Where tokens stand -/

theorem apart_nil : Apart last [] := isChain_nil

theorem apart_word (word : Token) : Apart last [word] := isChain_singleton word

/-- The tokens do not end with a number, if lengths come last. -/
def Open (last : Bool) (ts : List Token) :
    Prop := last = true → ∀ a ∈ ts.getLast?, a.isNumber = false

/-- A mark keeps what is before it apart from what is behind it. -/
theorem Apart.mark {c : Char} (h : Apart last ts) (hc : c ≠ ',' ∨ Open last ts)
    (hmore : Apart last more) : Apart last (ts ++ .mark c :: more) := by
  refine isChain_append.2 ⟨h,
    isChain_cons.2 ⟨fun _ _ => ⟨.inl rfl, fun _ => Bool.noConfusion⟩, hmore⟩, ?_⟩
  intro a ha b hb
  cases hb
  refine ⟨.inr rfl, fun hlast hnumber heq => ?_⟩
  cases heq
  rcases hc with hc | hopen
  · exact hc rfl
  · rw [hopen hlast a ha] at hnumber
    cases hnumber

theorem Derives.open (h : Derives last used t) : Open last used := by
  intro _ a ha
  cases h with
  | named => cases ha; rfl
  | applied | set | map =>
    rw [getLast?_concat] at ha
    cases ha
    rfl

mutual

/-- In what derives a type no two words are side by side, and lengths stand where they should. -/
theorem Derives.apart : ∀ {used : List Token} {t : TypeText}, Derives last used t → Apart last used
  | _, _, .named _ => apart_word _
  | _, _, @Derives.applied _ head _ _ _ _ _ hfirst hmore => by
      have hall := (hmore.apart hfirst.apart hfirst.open).mark (c := ']')
        (.inl (by decide)) apart_nil
      simpa using (apart_word (.name head)).mark (c := '[') (.inl (by decide)) hall
  | _, _, .set helement => by
      have hall := helement.apart.mark (c := '\x7d') (.inl (by decide)) apart_nil
      simpa using apart_nil.mark (c := '\x7b') (.inl (by decide)) hall
  | _, _, .map hkey hvalue => by
      have hvalue := hvalue.apart.mark (c := '\x7d') (.inl (by decide)) apart_nil
      have hall := hkey.apart.mark (c := ':') (.inl (by decide)) hvalue
      simpa using apart_nil.mark (c := '\x7b') (.inl (by decide)) hall

theorem Arguments.apart : ∀ {used : List Token} {args : List TypeText} {lengths : List Nat},
    Arguments last used args lengths → ∀ {ts : List Token}, Apart last ts → Open last ts →
      Apart last (ts ++ used)
  | _, _, _, .nil, _, hts, _ => by simpa using hts
  | _, _, _, .type harg hmore, _, hts, hopen =>
    hts.mark (.inr hopen) (hmore.apart harg.apart harg.open)
  | _, _, _, @Arguments.length _ ds _ _ _ hmore hlast, _, hts, hopen => by
      refine hts.mark (.inr hopen) ?_
      by_cases hstrict : last = true
      · rw [hlast hstrict]
        exact apart_word _
      · exact hmore.apart (apart_word (.digits ds)) fun h => absurd h hstrict

end

mutual

theorem Derives.of_apart {strict : Bool} : ∀ {used : List Token} {t : TypeText}, Derives last used
    t → Apart strict used → Derives strict used t
  | _, _, .named name, _ => .named name
  | _, _, .applied hfirst hmore, h => by
      obtain ⟨hts, hargs, -⟩ := isChain_append.1 h.left_of_append
      exact .applied (hfirst.of_apart hts.right_of_append) (hmore.of_apart hargs)
  | _, _, .set helement, h => .set (helement.of_apart h.left_of_append.right_of_append)
  | _, _, .map hkey hvalue, h => by
      obtain ⟨hkeys, hvalues, -⟩ := isChain_append.1 h.left_of_append
      exact .map (hkey.of_apart hkeys.left_of_append.right_of_append) (hvalue.of_apart hvalues)

theorem Arguments.of_apart {strict : Bool} :
    ∀ {used : List Token} {args : List TypeText} {lengths : List Nat},
    Arguments last used args lengths → Apart strict used → Arguments strict used args lengths
  | _, _, _, .nil, _ => .nil
  | _, _, _, .type harg hmore, h => by
      obtain ⟨hts, hrest, -⟩ := isChain_append.1 h
      exact .type (harg.of_apart hts.right_of_append) (hmore.of_apart hrest)
  | _, _, _, .length hmore _, h => by
      obtain ⟨hnext, hrest⟩ := isChain_cons.1 h.tail
      refine .length (hmore.of_apart hrest) fun hstrict => ?_
      cases hmore with
      | nil => rfl
      | type | length => exact absurd rfl ((hnext _ rfl).2 hstrict rfl)

end

/-- **Lengths come last exactly where no comma stands behind a number.** -/
theorem derives_last_iff : Derives true ts t ↔ Derives false ts t ∧ Apart true ts := by
  constructor
  · intro h
    have hapart := h.apart
    exact ⟨h.of_apart (hapart.imp fun _ _ hbeside => ⟨hbeside.1, Bool.noConfusion⟩), hapart⟩
  · rintro ⟨h, hapart⟩
    exact h.of_apart hapart

/-! ### Texts -/

theorem tokens_of_spells {cs blanks : List Char} (hcs : text.toList = cs ++ blanks)
    (hblanks : Blank blanks)
    (hspells : Spells cs ts) (hderives : Derives last ts t) : tokens text = .ok ts := by
  rw [tokens, hcs, hspells.dropTrailingBlanks hblanks, tokensFrom_of_spells hspells hderives.apart 0
    (Nat.le_refl _)]

/-- **A text is read as a type exactly when it writes it.** -/
theorem parse_eq_ok_iff : parse text = .ok t ↔ Writes false text t := by
  constructor
  · intro h
    obtain ⟨ts, htokens, h⟩ := bind_eq_ok.1 h
    obtain ⟨⟨t', rest⟩, hread, h⟩ := bind_eq_ok.1 h
    unfold tokens at htokens
    dsimp only at htokens h
    split at htokens
    · next hfrom =>
        cases htokens
        split at h
        · cases h
          obtain ⟨used, rfl, hderives⟩ := (derives_of_read text).1 _ _ _ _ hread
          obtain ⟨blanks, hcs, hblanks⟩ := exists_trailing_blanks text.toList
          exact ⟨_, blanks, _, hcs, hblanks, spells_of_tokensFrom hfrom, by simpa using hderives⟩
        · cases h
    · cases htokens
  · rintro ⟨cs, blanks, ts, hcs, hblanks, hspells, hderives⟩
    have hread := hderives.read text (2 * ts.length + 2) [] (by omega) (by simp)
    rw [append_nil] at hread
    rw [parse]
    exact bind_eq_ok.2 ⟨ts, tokens_of_spells hcs hblanks hspells hderives,
      bind_eq_ok.2 ⟨_, hread, rfl⟩⟩

/--
**Type strings are accepted by the grammar of annotations.**  An annotation is made of a text
exactly when the text writes a type, and then it is the annotation of that type; any other text is
refused.  By this grammar the last of several lengths counts.  The grammar in which a length comes
last, so that none is dropped, derives the same types from the same tokens, except where a comma
stands behind a number.
-/
theorem typeRef_writes (text : String) {span : Tree} {location : Span}
    (hspan : Tree.Make.spanOf span = .ok location) :
    (∀ tree, Tree.Make.typeRef (.text text) span = .ok tree ↔ ∃ t, Writes false text t ∧
      tree = t.toTree location) ∧
    ((∀ t, ¬Writes false text t) → ∃ e, Tree.Make.typeRef (.text text) span = .error
      (.typeText e)) ∧
    ∀ ts t, Derives true ts t ↔ Derives false ts t ∧ Apart true ts := by
  have hread : Tree.Make.typeRef (.text text) span =
      ((parse text).mapError MakeError.typeText).map (TypeText.toTree location) := by
    rw [Tree.Make.typeRef, hspan]
    rcases parse text with e | t <;> rfl
  rw [hread]
  refine ⟨fun tree => ?_, fun hnone => ?_, fun _ _ => derives_last_iff⟩
  · simp only [map_eq_ok, ← parse_eq_ok_iff, eq_comm (a := tree)]
    rcases parse text with e | t <;> simp [Except.mapError]
  · rcases hparse : parse text with e | t
    · exact ⟨e, rfl⟩
    · exact absurd (parse_eq_ok_iff.1 hparse) (hnone t)

/-- A text with blanks of several kinds, before tokens and at the end. -/
def spaced : String := " \x7b _k:\tarray [list[int],\u00a0007 ]\x7d\n"

/-- The text writes a map to arrays of seven lists. -/
theorem typeRef_writes_spaced : Tree.Make.spanOf .null = .ok .nowhere ∧ ∃ t, Writes false spaced t ∧
    toTree .nowhere (.applied "map"
      [.named "_k", .applied "array" [.applied "list" [.named "int"] none] (some 7)] none) =
        t.toTree .nowhere := by
  have hspan : Tree.Make.spanOf .null = .ok .nowhere := rfl
  have htokens : tokens spaced = .ok
    [.mark '\x7b', .name "_k", .mark ':', .name "array", .mark '[', .name "list",
      .mark '[', .name "int", .mark ']', .mark ',', .digits ['0', '0', '7'], .mark ']',
        .mark '\x7d'] :=
    toOption_eq_some.1 (by decide +kernel)
  refine ⟨hspan, ((typeRef_writes spaced hspan).1 _).1 ?_⟩
  rw [Tree.Make.typeRef, parse, htokens]
  rfl

/-- Of two lengths the first is dropped, though no length may stand in front of another. -/
theorem typeRef_drops_length :
    Tree.Make.typeRef (.text "array[int, 3, 4]") .null =
      .ok (toTree .nowhere (.applied "array" [.named "int"] (some 4))) ∧
    ∀ t, ¬Writes true "array[int, 3, 4]" t := by
  have htokens : tokens "array[int, 3, 4]" = .ok
    [.name "array", .mark '[', .name "int", .mark ',', .digits ['3'],
      .mark ',', .digits ['4'], .mark ']'] := toOption_eq_some.1 (by decide +kernel)
  refine ⟨by rw [Tree.Make.typeRef, parse, htokens]; rfl, ?_⟩
  rintro t ⟨cs, blanks, ts, hcs, hblanks, hspells, hderives⟩
  cases htokens.symm.trans (tokens_of_spells hcs hblanks hspells hderives)
  have hapart := hderives.apart
  simp [Apart, Token.isWord, Token.isNumber] at hapart

end TreeTyping.TypeText
