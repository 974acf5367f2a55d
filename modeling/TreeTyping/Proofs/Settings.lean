/-
Which settings are obtained.

Settings are read from a mapping and then overridden any number of times.  An update succeeds
exactly when the values it comes to are in order, with the given values in place of the old ones, so
settings stay in order whatever is asked of them.  A word size is compared by its value: a double
that equals 32 or 64 passes, and then the word size is that double.  Without such a double it is an
integer.
-/
import TreeTyping.Proofs.Except
import TreeTyping.Settings.Basic

namespace TreeTyping

open List TreeTyping.Except

/-- Whether an error says that settings are wrong. -/
def SettingsError.isConfig : SettingsError → Bool
  | .unknownKeys _ | .wordBits _ | .notPositive _ _ | .notATruthValue _ _ => true
  | _ => false

namespace Settings

variable {s s' base : Settings} {given overrides : List (String × Yaml)} {key : String} {y : Yaml}
  {e : SettingsError}

/-- The values of settings are among those that make sense. -/
structure InOrder (s : Settings) : Prop where
  wordBits : s.wordBits.equalsInt 32 = true ∨ s.wordBits.equalsInt 64 = true
  maxErrors : 1 ≤ s.maxErrors
  workers : 1 ≤ s.workers

/-! ### Reading values -/

theorem readWordBits_eq_ok {n : Number} :
    readWordBits y = .ok n ↔ y = .ofJson n.toJson ∧
      (n.equalsInt 32 = true ∨ n.equalsInt 64 = true) := by
  constructor
  · intro h
    unfold readWordBits at h
    split at h
    · split at h <;> cases h
      next hn => exact ⟨rfl, by simpa [Number.equalsInt] using hn⟩
    · split at h <;> cases h
      next hx => exact ⟨rfl, by simpa [Number.equalsInt] using hx⟩
    · cases h
  · rintro ⟨rfl, hn⟩
    cases n with
    | int n => exact if_pos (by simpa [Number.equalsInt] using hn)
    | float x => exact if_pos (by simpa [Number.equalsInt] using hn)

theorem readPositive_eq_ok {n : Int} : readPositive key y = .ok n ↔ y = .int n ∧ 1 ≤ n := by
  constructor
  · intro h
    unfold readPositive at h
    split at h
    · split at h <;> cases h
      next hn => exact ⟨rfl, by omega⟩
    · cases h
  · rintro ⟨rfl, hn⟩
    exact if_neg (by omega)

theorem readTruth_eq_ok {b : Bool} : readTruth key y = .ok b ↔ y = .bool b := by
  cases y <;> simp [readTruth]

theorem readWordBits_eq_error (h : readWordBits y = .error e) : e.isConfig = true := by
  unfold readWordBits at h
  split at h
  · split at h <;> cases h
    rfl
  · split at h <;> cases h
    rfl
  · cases h
    rfl

theorem readPositive_eq_error (h : readPositive key y = .error e) : e.isConfig = true := by
  unfold readPositive at h
  split at h
  · split at h <;> cases h
    rfl
  · cases h
    rfl

theorem readTruth_eq_error (h : readTruth key y = .error e) : e.isConfig = true := by
  unfold readTruth at h
  split at h <;> cases h
  rfl

/-! ### Updates -/

/-- The value under a key, with the given values in place of those of `base`. -/
def valueOf (base : Settings) (given : List (String × Yaml)) (key : String) : Yaml :=
  ((Keyed.find? key given).or (Keyed.find? key base.toMapping)).getD .null

/-- **An update succeeds exactly with settings in order that have the given values.** -/
theorem update_eq_ok :
    base.update given = .ok s ↔ s.InOrder ∧
      ∀ key ∈ keys, Keyed.find? key s.toMapping = some (base.valueOf given key) := by
  have hvalues : (∀ key ∈ keys, Keyed.find? key s.toMapping = some (base.valueOf given key)) ↔
      .ofJson s.wordBits.toJson = base.valueOf given "word_bits" ∧ .int s.maxErrors = base.valueOf
        given "max_errors" ∧
      .int s.workers = base.valueOf given "workers" ∧ .bool s.warnUnreachable = base.valueOf given
        "warn_unreachable" := by
    rw [keys, forall_mem_cons, forall_mem_cons, forall_mem_cons, forall_mem_singleton]
    exact and_congr Option.some_inj
      (and_congr Option.some_inj (and_congr Option.some_inj Option.some_inj))
  rw [hvalues]
  constructor
  · intro h
    obtain ⟨wordBits, hword, h⟩ := bind_eq_ok.1 h
    obtain ⟨maxErrors, hmax, h⟩ := bind_eq_ok.1 h
    obtain ⟨workers, hworkers, h⟩ := bind_eq_ok.1 h
    obtain ⟨warn, hwarn, h⟩ := bind_eq_ok.1 h
    cases h
    obtain ⟨hword, hsize⟩ := readWordBits_eq_ok.1 hword
    obtain ⟨hmax, hone⟩ := readPositive_eq_ok.1 hmax
    obtain ⟨hworkers, hone'⟩ := readPositive_eq_ok.1 hworkers
    exact ⟨⟨hsize, hone, hone'⟩, hword.symm, hmax.symm, hworkers.symm,
      (readTruth_eq_ok.1 hwarn).symm⟩
  · rintro ⟨⟨hsize, hone, hone'⟩, hword, hmax, hworkers, hwarn⟩
    refine bind_eq_ok.2 ⟨_, readWordBits_eq_ok.2 ⟨hword.symm, hsize⟩, ?_⟩
    refine bind_eq_ok.2 ⟨_, readPositive_eq_ok.2 ⟨hmax.symm, hone⟩, ?_⟩
    refine bind_eq_ok.2 ⟨_, readPositive_eq_ok.2 ⟨hworkers.symm, hone'⟩, ?_⟩
    exact bind_eq_ok.2 ⟨_, readTruth_eq_ok.2 hwarn.symm, rfl⟩

theorem update_eq_error (h : base.update given = .error e) : e.isConfig = true := by
  rcases bind_eq_error.1 h with h | ⟨_, -, h⟩
  · exact readWordBits_eq_error h
  rcases bind_eq_error.1 h with h | ⟨_, -, h⟩
  · exact readPositive_eq_error h
  rcases bind_eq_error.1 h with h | ⟨_, -, h⟩
  · exact readPositive_eq_error h
  rcases bind_eq_error.1 h with h | ⟨_, -, h⟩
  · exact readTruth_eq_error h
  · cases h

/-- Unless a double is given in its place, a word size that is an integer stays one. -/
theorem wordBits_int (h : ∀ key ∈ keys, Keyed.find? key s.toMapping = some (base.valueOf given key))
    (hgiven : ∀ x, ("word_bits", .float x) ∉ given) (hbase : ∃ n, base.wordBits = .int n) :
    ∃ n, s.wordBits = .int n := by
  have hvalue : Yaml.ofJson s.wordBits.toJson = base.valueOf given "word_bits" :=
    Option.some.inj (h "word_bits" mem_cons_self)
  cases hword : s.wordBits with
  | int n => exact ⟨n, rfl⟩
  | float x =>
    rw [hword, valueOf] at hvalue
    cases hfound : Keyed.find? "word_bits" given with
    | some y =>
      rw [hfound] at hvalue
      cases hvalue
      exact absurd (Keyed.mem_of_find? hfound) (hgiven x)
    | none =>
      obtain ⟨n, hn⟩ := hbase
      have hold : Yaml.ofJson (.float x) = .ofJson base.wordBits.toJson := by
        rw [hfound] at hvalue
        exact hvalue
      rw [hn] at hold
      cases hold

/-! ### Mappings and overrides -/

/-- The result of updating `base` by the given values: settings in order that have them, where all
their keys are known.  Otherwise an error, which is one of the given kind where a key is unknown. -/
structure Answers (base : Settings) (given : List (String × Yaml)) (unknown : SettingsError → Prop)
    (result : Except SettingsError Settings) : Prop where
  ok : ∀ s, result = .ok s ↔ (∀ entry ∈ given, entry.1 ∈ keys) ∧ s.InOrder ∧
    ∀ key ∈ keys, Keyed.find? key s.toMapping = some (base.valueOf given key)
  error : ∀ e, result = .error e → (∀ entry ∈ given, entry.1 ∈ keys) ∧ e.isConfig = true ∨
    (∃ entry ∈ given, entry.1 ∉ keys) ∧ unknown e

theorem answers_ite {unknown : SettingsError → Prop} {b : Bool}
    (hb : b = true ↔ ∀ entry ∈ given, entry.1 ∈ keys)
    (he : unknown e) : Answers base given unknown (if b then base.update given else .error e) := by
  split
  · next hknown =>
      have hknown := hb.1 hknown
      exact ⟨fun s => by rw [update_eq_ok, and_iff_right hknown], fun e' h => .inl ⟨hknown,
        update_eq_error h⟩⟩
  · next hunknown =>
      obtain ⟨entry, hmem, hnot⟩ : ∃ entry ∈ given, entry.1 ∉ keys := by simpa [hb] using hunknown
      refine ⟨fun s => iff_of_false (by simp) fun h => hnot (h.1 entry hmem),
        fun e' h => .inr ⟨⟨entry, hmem, hnot⟩, ?_⟩⟩
      cases h
      exact he

theorem ofMapping_answers (given : List (String × Yaml)) :
    Answers {} given (fun e => e.isConfig = true) (ofMapping given) :=
  answers_ite (by simp) rfl

/-- The overrides that are not null. -/
def replacements (overrides : List (String × Yaml)) : List (String × Yaml) :=
  overrides.filter fun o => !(o.2 matches .null)

theorem withOverrides_answers (s : Settings) (overrides : List (String × Yaml)) :
    s.Answers (replacements overrides) (fun e => e = .unknownOverride)
      (s.withOverrides overrides) := by
  have hknown : ((replacements overrides).all fun o => keys.contains o.1) = true ↔
      ∀ entry ∈ replacements overrides, entry.1 ∈ keys := by simp
  exact answers_ite hknown rfl

/-- The settings after calls with overrides; a call that is refused leaves them as they are. -/
def after (s : Settings) : List (List (String × Yaml)) → Settings
  | [] => s
  | overrides :: rest =>
    match s.withOverrides overrides with
    | .ok s' => s'.after rest
    | .error _ => s.after rest

theorem after_append (s : Settings) (before rest : List (List (String × Yaml))) :
    s.after (before ++ rest) = (s.after before).after rest := by
  induction before generalizing s with
  | nil => rfl
  | cons overrides before ih =>
    rw [cons_append, after, after]
    split
    · exact ih _
    · exact ih s

/-- What the settings have and every override keeps, they have after all calls. -/
theorem after_keeps {P : Settings → Prop} {calls : List (List (String × Yaml))} (hs : P s)
    (hstep : ∀ overrides ∈ calls, ∀ s s', P s → s.withOverrides overrides = .ok s' → P s') :
    P (s.after calls) := by
  induction calls generalizing s with
  | nil => exact hs
  | cons overrides rest ih =>
    obtain ⟨hfirst, hrest⟩ := forall_mem_cons.1 hstep
    rw [after]
    split
    · next s' h => exact ih (hfirst s s' hs h) hrest
    · exact ih hs hrest

/--
**Settings that are obtained are in order.**  Read from any mapping and overridden any number of
times, the word size equals 32 or 64, and the limit and the number of workers are at least one.  The
word size is an integer unless it was given as a double.  A mapping is read exactly when its keys
are known and the values it comes to are in order, and the same holds of overrides; anything else is
refused as a wrong configuration, or as an unknown override, and a run of overrides comes to the
same without those that are refused.
-/
theorem obtained_inOrder (given : List (String × Yaml)) (calls : List (List (String × Yaml))) :
    (∀ s, ofMapping given = .ok s → (s.after calls).InOrder ∧
      ((∀ entries ∈ given :: calls, ∀ x, ("word_bits", .float x) ∉ entries) →
        ∃ n, (s.after calls).wordBits = .int n)) ∧
    Answers {} given (fun e => e.isConfig = true) (ofMapping given) ∧
    ∀ (s : Settings) (overrides : List (String × Yaml)),
      s.Answers (replacements overrides) (fun e => e = .unknownOverride)
        (s.withOverrides overrides) ∧
      ∀ before e, (s.after before).withOverrides overrides = .error e →
        ∀ rest, s.after (before ++ overrides :: rest) = s.after (before ++ rest) := by
  refine ⟨fun s hs => ⟨?_, fun hgiven => ?_⟩, ofMapping_answers given,
    fun s overrides => ⟨s.withOverrides_answers overrides, fun before e he rest => ?_⟩⟩
  · refine after_keeps (((ofMapping_answers given).ok s).1 hs).2.1 fun overrides _ s s' _ h => ?_
    exact (((s.withOverrides_answers overrides).ok s').1 h).2.1
  · obtain ⟨hfirst, hcalls⟩ := forall_mem_cons.1 hgiven
    refine after_keeps (P := fun s => ∃ n, s.wordBits = .int n) ?_
      fun overrides hmem s s' hs h => ?_
    · exact wordBits_int (((ofMapping_answers given).ok s).1 hs).2.2 hfirst ⟨64, rfl⟩
    · refine wordBits_int (((s.withOverrides_answers overrides).ok s').1 h).2.2 (fun x hx => ?_) hs
      exact hcalls overrides hmem x (mem_filter.1 hx).1
  · rw [after_append, after_append, after, he]

/-- A double as the word size is taken as it is. -/
theorem ofMapping_double :
    ofMapping [("word_bits", .float (.ofInt 64))] = .ok { wordBits := .float (.ofInt 64) } :=
  rfl

end Settings

end TreeTyping
