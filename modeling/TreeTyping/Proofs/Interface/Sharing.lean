/-
Remembered answers are shared.

Any number of threads ask about the types over one registry, each whenever it likes, and all
remember in the same place.  A query is worked on in steps: the question is looked up; where it is
not there its answer is computed from the registry, and stored; and a reply is given.  Between any
two steps the other threads go on, so an answer may be computed by many threads and stored again and
again.

What is remembered is right at all times, so a reply is what it would be if nothing were remembered.
No thread waits for another: from wherever it stands, a thread can give its reply by four steps of
its own.  When each query is issued only after the one before has been answered, what is remembered
and counted is what the questions come to when they are asked in turn.
-/
import Mathlib.Logic.Function.Basic
import TreeTyping.Assignability
import TreeTyping.Proofs.Interface.Cache
import TreeTyping.Proofs.Interface.Satisfaction

namespace TreeTyping

open List

/-! ### Queries -/

/-- A question about an interface, as such, as a test, or as a demand. -/
inductive Query where
  | mismatch (q : Question)
  | satisfies (q : Question)
  | require (q : Question) (span : Span)

/-- What a query is answered with, unless it fails. -/
inductive Reply where
  | mismatch (m : Option MemberMismatch)
  | satisfied (b : Bool)
  | granted
deriving DecidableEq

namespace Query

variable {r : Registry}

/-- The question behind a query. -/
def question : Query → Question
  | .mismatch q | .satisfies q | .require q _ => q

/-- The inference that answers a query. -/
def infer (r : Registry) : Query → Inference Reply
  | .mismatch q => do return .mismatch (← Inference.mismatch r q.concrete q.interface)
  | .satisfies q => do return .satisfied (← Inference.satisfies r q.concrete q.interface)
  | .require q span => do
    Inference.requireSatisfies r q.concrete q.interface span
    return .granted

/-- The reply that an answer to the question makes; a demand that is not met fails. -/
def reply : Query → Option MemberMismatch → Except Failure Reply
  | .mismatch _, a => .ok (.mismatch a)
  | .satisfies _, a => .ok (.satisfied a.isNone)
  | .require _ _, none => .ok .granted
  | .require q span, some m => .error (.of (Registry.notSatisfied q.concrete q.interface m) span)

/-- The query is about types over the registry. -/
def Over (r : Registry) (query : Query) : Prop :=
  r.Over query.question.concrete ∧ r.Over (.interface query.question.interface)

instance (query : Query) : Decidable (query.Over r) := inferInstanceAs (Decidable (_ ∧ _))

/-- The reply is the one that the members of the type and the requirements of the interface make. -/
def Answered (r : Registry) (query : Query) (reply : Except Failure Reply) : Prop :=
  ∃ a, r.Answers query.question.concrete query.question.interface a ∧ reply = query.reply a

/-- A query that needs no members is answered at once. -/
theorem infer_of_trivial {query : Query}
    (h : r.isTrivial query.question.concrete query.question.interface = true) :
    query.infer r = .done (query.reply none) := by
  cases query with
  | mismatch q => simp only [question] at h; simp only [infer, Inference.mismatch, h]; rfl
  | satisfies q =>
    simp only [question] at h; simp only [infer, Inference.satisfies, Inference.mismatch, h]; rfl
  | require q span =>
    simp only [question] at h
    simp only [infer, Inference.requireSatisfies, Inference.mismatch, h]
    rfl

theorem infer_of_not_trivial {query : Query}
    (h : r.isTrivial query.question.concrete query.question.interface = false) :
    query.infer r = .ask query.question
      (r.firstMismatch query.question.concrete query.question.interface) fun a =>
      .done (query.reply a) := by
  cases query with
  | mismatch q => simp only [question] at h; simp only [infer, Inference.mismatch, h]; rfl
  | satisfies q =>
    simp only [question] at h; simp only [infer, Inference.satisfies, Inference.mismatch, h]; rfl
  | require q span =>
    simp only [question] at h
    simp only [infer, Inference.requireSatisfies, Inference.mismatch, h]
    refine congrArg (Inference.ask q _) (funext fun a => ?_)
    cases a <;> rfl

end Query

/-! ### Steps -/

/-- Where a thread stands with a query. -/
inductive Stage where
  | working (rest : Inference Reply)
  /-- The question was not remembered, and its answer is to be computed. -/
  | computing (q : Question) (answer : Except Failure (Option MemberMismatch))
      (rest : Option MemberMismatch → Inference Reply)
  /-- The answer has been computed and is to be stored. -/
  | storing (q : Question) (a : Option MemberMismatch)
      (rest : Option MemberMismatch → Inference Reply)

namespace Stage

/-- One step with what is remembered; there is none when only the reply is left to be given. -/
def next (c : SatisfactionCache) : Stage → Option (SatisfactionCache × Stage)
  | .working (.done _) => none
  | .working (.establish _ rest) => some (c, .working rest)
  | .working (.ask q answer rest) =>
    match c.find? q with
    | some a => some ({ c with hits := c.hits + 1 }, .working (rest a))
    | none => some ({ c with misses := c.misses + 1 }, .computing q answer rest)
  | .computing q (.ok a) rest => some (c, .storing q a rest)
  | .computing _ (.error f) _ => some (c, .working (.done (.error f)))
  | .storing q a rest => some (c.store q a, .working (rest a))

/-- The reply that is left to be given. -/
def reply? : Stage → Option (Except Failure Reply)
  | .working (.done reply) => some reply
  | _ => none

end Stage

/-- A thread and what it works on, if anything. -/
inductive Thread where
  | idle
  | busy (query : Query) (stage : Stage)

/-- Whether a thread has nothing to work on. -/
def Thread.isIdle : Thread → Bool
  | .idle => true
  | .busy _ _ => false

/-- A reply that was given. -/
structure Served where
  thread : Nat
  query : Query
  reply : Except Failure Reply

/-- Threads that share what they remember, and the replies that were given, in order. -/
structure Sharing where
  cache : SatisfactionCache := {}
  threads : List Thread
  replies : List Served := []

/-- What can happen next: a thread begins with a query, or goes on with the one it has. -/
inductive Move where
  | issue (thread : Nat) (query : Query)
  | proceed (thread : Nat)

namespace Sharing

/-- So many threads, before the first query. -/
def start (threads : Nat) : Sharing := { threads := List.replicate threads .idle }

/-- One move; a thread works on one query at a time. -/
def step (r : Registry) (s : Sharing) : Move → Option Sharing
  | .issue t query =>
    match s.threads[t]? with
    | some .idle => some { s with
        threads := s.threads.set t (.busy query (.working (query.infer r))) }
    | _ => none
  | .proceed t =>
    match s.threads[t]? with
    | some (.busy query stage) =>
      match stage.reply? with
      | some reply =>
        some { s with
          threads := s.threads.set t .idle, replies := s.replies ++ [⟨t, query, reply⟩] }
      | none => (stage.next s.cache).map fun next =>
        { s with cache := next.1, threads := s.threads.set t (.busy query next.2) }
    | _ => none

/-- Several moves, one after the other. -/
def run (r : Registry) (s : Sharing) (moves : List Move) : Option Sharing := moves.foldlM (step r) s

/-- Whether no thread is busy. -/
def quiet (s : Sharing) : Bool := s.threads.all Thread.isIdle

/-- Whether each query is issued when no thread is busy. -/
def sequential (r : Registry) (s : Sharing) : List Move → Bool
  | [] => true
  | move :: rest =>
    (match move with
      | .issue _ _ => s.quiet
      | .proceed _ => true) &&
    (match s.step r move with
      | some next => next.sequential r rest
      | none => true)

end Sharing

namespace Move

/-- The query that a move begins with, if any, is about types over the registry. -/
def Over (r : Registry) : Move → Prop
  | .issue _ query => query.Over r
  | .proceed _ => True

instance (r : Registry) (move : Move) : Decidable (move.Over r) :=
  match move with
  | .issue _ query => inferInstanceAs (Decidable (query.Over r))
  | .proceed _ => inferInstanceAs (Decidable True)

/-- The question that a move begins with. -/
def question? : Move → Option Question
  | .issue _ query => some query.question
  | .proceed _ => none

end Move

/-! ### What a step does -/

/-- A thread stands there with a query to a registry, and has at most so many steps before it. -/
inductive Stage.Of (r : Registry) (query : Query) : Nat → Stage → Prop
  | begun : Stage.Of r query 4 (.working (query.infer r))
  | missed (h : r.isTrivial query.question.concrete query.question.interface = false) :
      Stage.Of r query 3 (.computing query.question
        (r.firstMismatch query.question.concrete query.question.interface) fun a =>
        .done (query.reply a))
  | computed {a : Option MemberMismatch}
      (ha : r.firstMismatch query.question.concrete query.question.interface = .ok a) :
      Stage.Of r query 2 (.storing query.question a fun a => .done (query.reply a))
  | answered {a : Option MemberMismatch}
      (ha : r.firstMismatch query.question.concrete query.question.interface = .ok a) :
      Stage.Of r query 1 (.working (.done (query.reply a)))

/-- What is remembered once an inference has been finished without others in between. -/
def Inference.remembered {α : Type} : SatisfactionCache → Inference α → SatisfactionCache
  | c, .done _ => c
  | c, .establish _ rest => remembered c rest
  | c, .ask q answer rest =>
    match c.find? q with
    | some a => remembered { c with hits := c.hits + 1 } (rest a)
    | none =>
      let missed := { c with misses := c.misses + 1 }
      match answer with
      | .ok a => remembered (missed.store q a) (rest a)
      | .error _ => missed

namespace Stage

variable {r : Registry} {query : Query} {stage stage' : Stage} {c c' : SatisfactionCache} {n : Nat}

/-- What is remembered once a query has been finished without others in between. -/
def remembered (c : SatisfactionCache) : Stage → SatisfactionCache
  | .working rest => rest.remembered c
  | .computing q (.ok a) rest => (rest a).remembered (c.store q a)
  | .computing _ (.error _) _ => c
  | .storing q a rest => (rest a).remembered (c.store q a)

theorem remembered_of_reply? {reply : Except Failure Reply} (h : stage.reply? = some reply) :
    stage.remembered c = c := by
  unfold reply? at h
  split at h
  · rfl
  · cases h

/-- A step leads no further than what is remembered in the end. -/
theorem remembered_next (h : stage.next c = some (c', stage')) :
    stage'.remembered c' = stage.remembered c := by
  unfold next at h
  split at h
  · cases h
  · cases h
    rfl
  · next q answer rest =>
      rw [remembered, Inference.remembered]
      split at h
      · cases h
        rfl
      · cases h
        cases answer <;> rfl
  · cases h
    rfl
  · cases h
    rfl
  · cases h
    rfl

/--
**What one step can do.**  Either only the reply is left, and it is by the answer of the registry;
or there is a step, which keeps what is remembered right and leaves fewer steps.
-/
theorem Of.next (hc : c.Right r)
    (hover : ∃ a, r.firstMismatch query.question.concrete query.question.interface = .ok a)
    (h : Of r query n stage) :
    (∃ a, r.firstMismatch query.question.concrete query.question.interface = .ok a ∧
      stage.reply? = some (query.reply a)) ∨
    ∃ c' stage' m, m < n ∧ stage.reply? = none ∧ stage.next c = some (c', stage') ∧ c'.Right r ∧
      Of r query m stage' := by
  obtain ⟨a, ha⟩ := hover
  cases h with
  | begun =>
    rcases htrivial : r.isTrivial query.question.concrete query.question.interface with _ | _
    · rw [Query.infer_of_not_trivial htrivial]
      refine .inr ?_
      rcases hfind : c.find? query.question with _ | a'
      · exact ⟨{ c with misses := c.misses + 1 }, _, 3, by omega, rfl, by
          simp only [Stage.next, hfind], hc,
          .missed htrivial⟩
      · exact ⟨{ c with hits := c.hits + 1 }, _, 1, by omega, rfl, by
          simp only [Stage.next, hfind], hc,
          .answered (hc _ _ hfind)⟩
    · refine .inl ⟨none, ?_, ?_⟩
      · rw [Registry.firstMismatch, if_pos htrivial]
      · rw [Query.infer_of_trivial htrivial]
        rfl
  | missed htrivial =>
    refine .inr ⟨c, .storing query.question a fun a => .done (query.reply a), 2, by
      omega, rfl, ?_, hc, .computed ha⟩
    rw [ha]
    rfl
  | @computed a' ha' => exact .inr ⟨_, _, 1, by omega, rfl, rfl, hc.store ha', .answered ha'⟩
  | @answered a' ha' => exact .inl ⟨a', ha', rfl⟩

end Stage

/-- After a query is worked on alone, what asking the question remembers is remembered. -/
theorem Query.infer_remembered (r : Registry) (query : Query) (c : SatisfactionCache) :
    (query.infer r).remembered c = (c.ask r query.question).2 := by
  rw [SatisfactionCache.ask]
  rcases htrivial : r.isTrivial query.question.concrete query.question.interface with _ | _
  · rw [infer_of_not_trivial htrivial, Inference.remembered, if_neg Bool.false_ne_true]
    rcases c.find? query.question with _ | a
    · rcases r.firstMismatch query.question.concrete query.question.interface with f | a <;> rfl
    · rfl
  · rw [infer_of_trivial htrivial, if_pos rfl]
    rfl

namespace Sharing

variable {r : Registry} {s s' : Sharing}

/-! ### What a move does -/

theorem step_issue {t : Nat} {query : Query} (h : s.step r (.issue t query) = some s') :
    s.threads[t]? = some .idle ∧
      s' = { s with threads := s.threads.set t (.busy query (.working (query.infer r))) } := by
  simp only [step] at h
  split at h
  · next hidle => exact ⟨hidle, (Option.some.inj h).symm⟩
  · cases h

theorem step_proceed {t : Nat} (h : s.step r (.proceed t) = some s') : ∃ query stage,
    s.threads[t]? = some (.busy query stage) ∧
    ((∃ reply, stage.reply? = some reply ∧
      s' = { s with threads := s.threads.set t .idle, replies := s.replies ++
        [⟨t, query, reply⟩] }) ∨
    ∃ c stage', stage.reply? = none ∧ stage.next s.cache = some (c, stage') ∧
      s' = { s with cache := c, threads := s.threads.set t (.busy query stage') }) := by
  simp only [step] at h
  split at h
  · next query stage hbusy =>
      refine ⟨query, stage, hbusy, ?_⟩
      rcases hreply : stage.reply? with _ | reply
      · rw [hreply] at h
        obtain ⟨⟨c, stage'⟩, hnext, hs'⟩ := Option.map_eq_some_iff.1 h
        exact .inr ⟨c, stage', rfl, hnext, hs'.symm⟩
      · rw [hreply] at h
        exact .inl ⟨reply, rfl, (Option.some.inj h).symm⟩
  · cases h

/-! ### Runs -/

/-- What is remembered and replied is right, and threads are on their way to their replies. -/
structure Kept (r : Registry) (s : Sharing) : Prop where
  cache : s.cache.Right r
  threads : ∀ query stage, .busy query stage ∈ s.threads → query.Over r ∧
    ∃ n ≤ 4, stage.Of r query n
  replies : ∀ e ∈ s.replies, e.query.Over r ∧ e.query.Answered r e.reply

theorem kept_start (threads : Nat) : Kept r (start threads) := by
  refine ⟨SatisfactionCache.right_empty, ?_, forall_mem_nil _⟩
  intro query stage hbusy
  cases eq_of_mem_replicate hbusy

/-- One thread changes and the others stay as they were. -/
theorem Kept.set (h : Kept r s) (t : Nat) {thread : Thread}
    (hthread : ∀ query stage, thread = .busy query stage →
    query.Over r ∧ ∃ n ≤ 4, stage.Of r query n) (query : Query) (stage : Stage)
    (hbusy : .busy query stage ∈ s.threads.set t thread) :
    query.Over r ∧ ∃ n ≤ 4, stage.Of r query n := by
  rcases mem_or_eq_of_mem_set hbusy with hold | hnew
  · exact h.threads query stage hold
  · exact hthread query stage hnew.symm

section InOrder

variable (hr : r.InOrder)

include hr

theorem answer_of_over {query : Query} (h : query.Over r) :
    ∃ a, r.firstMismatch query.question.concrete query.question.interface = .ok a ∧
      r.Answers query.question.concrete query.question.interface a :=
  hr.firstMismatch_answers h.1 _

/-- The reply by the answer of the registry is the one that the members make. -/
theorem answered_of_firstMismatch {query : Query} (h : query.Over r) {a : Option MemberMismatch}
    (ha : r.firstMismatch query.question.concrete query.question.interface = .ok a) :
    query.Answered r (query.reply a) := by
  obtain ⟨a', ha', hanswers⟩ := answer_of_over hr h
  cases ha.symm.trans ha'
  exact ⟨a, hanswers, rfl⟩

/-- **What a move keeps.** -/
theorem Kept.step (h : Kept r s) {move : Move} (hover : move.Over r)
    (hstep : s.step r move = some s') : Kept r s' := by
  cases move with
  | issue t query =>
    obtain ⟨-, rfl⟩ := step_issue hstep
    refine ⟨h.cache, h.set t ?_, h.replies⟩
    intro query' stage' hbusy
    cases hbusy
    exact ⟨hover, 4, le_refl 4, .begun⟩
  | proceed t =>
    obtain ⟨query, stage, hbusy, hcases⟩ := step_proceed hstep
    obtain ⟨hquery, n, hn, hstage⟩ := h.threads query stage (mem_of_getElem? hbusy)
    obtain ⟨a, ha, -⟩ := answer_of_over hr hquery
    have hone := hstage.next h.cache ⟨a, ha⟩
    rcases hcases with ⟨reply, hreply, rfl⟩ | ⟨c, stage', hnone, hnext, rfl⟩
    · refine ⟨h.cache, h.set t ?_, fun e he => ?_⟩
      · intro query' stage' hidle
        cases hidle
      · rcases mem_append.1 he with he | he
        · exact h.replies e he
        · obtain rfl := mem_singleton.1 he
          rcases hone with ⟨a', ha', hreply'⟩ | ⟨-, -, -, -, hnone, -⟩
          · cases hreply.symm.trans hreply'
            exact ⟨hquery, answered_of_firstMismatch hr hquery ha'⟩
          · cases hreply.symm.trans hnone
    · rcases hone with ⟨a', -, hreply'⟩ | ⟨c', stage'', m, hm, -, hnext', hc, hstage'⟩
      · cases hnone.symm.trans hreply'
      · cases hnext.symm.trans hnext'
        refine ⟨hc, h.set t ?_, h.replies⟩
        intro query' stage'' hbusy'
        cases hbusy'
        exact ⟨hquery, m, by omega, hstage'⟩

theorem Kept.run (h : Kept r s) {moves : List Move} (hover : ∀ m ∈ moves, m.Over r)
    (hrun : s.run r moves = some s') : Kept r s' := by
  induction moves generalizing s with
  | nil =>
    cases hrun
    exact h
  | cons move rest ih =>
    obtain ⟨hmove, hrest⟩ := forall_mem_cons.1 hover
    obtain ⟨next, hnext, hrun⟩ := Option.bind_eq_some_iff.1 hrun
    exact ih (h.step hr hmove hnext) hrest hrun

/-- A thread that goes on alone gives its reply, and after no more steps than it has before it. -/
theorem Kept.finish (h : Kept r s) {t n : Nat} {query : Query} {stage : Stage}
    (hbusy : s.threads[t]? = some (.busy query stage)) (hstage : stage.Of r query n) :
    ∃ k ≤ n, ∃ s' reply, s.run r (List.replicate k (.proceed t)) = some s' ∧
      s'.threads[t]? = some .idle ∧ s'.replies = s.replies ++ [⟨t, query, reply⟩] := by
  have hthere : t < s.threads.length := (List.getElem?_eq_some_iff.1 hbusy).1
  induction n using Nat.strong_induction_on generalizing s stage with
  | _ n ih =>
    obtain ⟨hquery, -⟩ := h.threads query stage (mem_of_getElem? hbusy)
    obtain ⟨a, ha, -⟩ := answer_of_over hr hquery
    rcases hstage.next h.cache ⟨a, ha⟩ with ⟨a', -, hreply⟩ |
      ⟨c', stage', m, hm, hnone, hnext, -, hstage'⟩
    · have hone : s.step r (.proceed t) = some { s with
          threads := s.threads.set t .idle, replies :=
            s.replies ++ [⟨t, query, query.reply a'⟩] } := by
        simp only [Sharing.step, hbusy, hreply]
      have hleft : 1 ≤ n := by cases hstage <;> omega
      exact ⟨1, hleft, _, query.reply a', Option.bind_eq_some_iff.2 ⟨_, hone, rfl⟩,
        getElem?_set_self hthere, rfl⟩
    · have hone : s.step r (.proceed t) = some { s with
          cache := c', threads := s.threads.set t (.busy query stage') } := by
        simp only [Sharing.step, hbusy, hnone, hnext, Option.map_some]
      have hproceed : (Move.proceed t).Over r := trivial
      obtain ⟨k, hk, s', reply, hrun, hidle, hreplies⟩ :=
        ih m hm (h.step hr hproceed hone) (getElem?_set_self hthere) hstage'
          (by rwa [length_set])
      refine ⟨k + 1, by omega, s', reply, ?_, hidle, hreplies⟩
      rw [replicate_succ]
      exact Option.bind_eq_some_iff.2 ⟨_, hone, hrun⟩

/-- The questions of moves that are about types over the registry have answers. -/
theorem questions_answered {moves : List Move} (hover : ∀ m ∈ moves, m.Over r) :
    ∀ q ∈ moves.filterMap Move.question?, ∃ a, r.firstMismatch q.concrete q.interface = .ok a := by
  intro q hq
  obtain ⟨move, hmove, hquestion⟩ := mem_filterMap.1 hq
  cases move with
  | issue t query =>
    cases hquestion
    obtain ⟨a, ha, -⟩ := answer_of_over hr (hover _ hmove)
    exact ⟨a, ha⟩
  | proceed t => cases hquestion

end InOrder

/-! ### One query after the other -/

theorem quiet_iff : s.quiet = true ↔ ∀ query stage, .busy query stage ∉ s.threads := by
  rw [quiet, all_eq_true]
  constructor
  · intro h query stage hbusy
    cases h _ hbusy
  · intro h thread hthread
    cases thread with
    | idle => rfl
    | busy query stage => exact absurd hthread (h query stage)

/-- One thread is busy at most; when it is done, what is remembered is as after asking in turn. -/
def InTurn (r : Registry) (s : Sharing) (asked : List Question) : Prop :=
  (s.quiet = true ∧ s.cache = SatisfactionCache.replay {} r asked) ∨
  ∃ t query stage, s.threads[t]? = some (.busy query stage) ∧
    { s with threads := s.threads.set t .idle }.quiet = true ∧
    stage.remembered s.cache = SatisfactionCache.replay {} r asked

theorem InTurn.cache {asked : List Question} (h : InTurn r s asked) (hquiet : s.quiet = true) :
    s.cache = SatisfactionCache.replay {} r asked := by
  rcases h with ⟨-, hcache⟩ | ⟨t, query, stage, hbusy, -⟩
  · exact hcache
  · exact absurd (mem_of_getElem? hbusy) (quiet_iff.1 hquiet query stage)

theorem InTurn.issue {asked : List Question} (h : InTurn r s asked) (hquiet : s.quiet = true)
    {t : Nat} {query : Query}
    (hstep : s.step r (.issue t query) = some s') : InTurn r s' (asked ++ [query.question]) := by
  obtain ⟨hidle, rfl⟩ := step_issue hstep
  have hthere : t < s.threads.length := (List.getElem?_eq_some_iff.1 hidle).1
  refine .inr ⟨t, query, _, getElem?_set_self hthere, ?_, ?_⟩
  · rw [quiet_iff] at hquiet ⊢
    intro query' stage' hbusy
    rw [set_set] at hbusy
    rcases mem_or_eq_of_mem_set hbusy with hold | hnew
    · exact hquiet query' stage' hold
    · cases hnew
  · show (query.infer r).remembered s.cache = _
    rw [Query.infer_remembered, SatisfactionCache.replay, foldl_append, h.cache hquiet]
    rfl

theorem InTurn.proceed {asked : List Question} (h : InTurn r s asked) {t : Nat}
    (hstep : s.step r (.proceed t) = some s') : InTurn r s' asked := by
  obtain ⟨query, stage, hbusy, hcases⟩ := step_proceed hstep
  have hthere : t < s.threads.length := (List.getElem?_eq_some_iff.1 hbusy).1
  rcases h with ⟨hquiet, -⟩ | ⟨t', query', stage', hbusy', hothers, hcache⟩
  · exact absurd (mem_of_getElem? hbusy) (quiet_iff.1 hquiet query stage)
  · have hturn : t' = t := by
      by_contra hne
      have hstays : (s.threads.set t' .idle)[t]? = some (.busy query stage) := by
        rw [getElem?_set_ne hne, hbusy]
      exact quiet_iff.1 hothers query stage (mem_of_getElem? hstays)
    subst hturn
    cases hbusy.symm.trans hbusy'
    rcases hcases with ⟨reply, hreply, rfl⟩ | ⟨c, stage', -, hnext, rfl⟩
    · exact .inl ⟨hothers, (Stage.remembered_of_reply? hreply).symm.trans hcache⟩
    · refine .inr ⟨t', query, stage', getElem?_set_self hthere, ?_,
        (Stage.remembered_next hnext).trans hcache⟩
      show quiet { s with cache := c, threads := (s.threads.set t' _).set t' .idle } = true
      rw [set_set]
      exact hothers

/-- **One query after the other is one question after the other.** -/
theorem InTurn.run {asked : List Question} (h : InTurn r s asked) {moves : List Move}
    (hseq : s.sequential r moves = true) (hrun : s.run r moves = some s') :
    InTurn r s' (asked ++ moves.filterMap Move.question?) := by
  induction moves generalizing s asked with
  | nil =>
    cases hrun
    rwa [filterMap_nil, append_nil]
  | cons move rest ih =>
    obtain ⟨next, hstep, hafter⟩ := Option.bind_eq_some_iff.1 hrun
    obtain ⟨hmove, hrest⟩ := Bool.and_eq_true_iff.1 hseq
    rw [hstep] at hrest
    cases move with
    | issue t query =>
      show InTurn r s' (asked ++ query.question :: rest.filterMap Move.question?)
      rw [append_cons]
      exact ih (h.issue hmove hstep) hrest hafter
    | proceed t => exact ih (h.proceed hstep) hrest hafter

theorem inTurn_start (threads : Nat) : InTurn r (start threads) [] := by
  refine .inl ⟨quiet_iff.2 fun query stage hbusy => ?_, rfl⟩
  cases eq_of_mem_replicate hbusy

/-! ### Replies -/

/--
**What is remembered shows in no reply.**  However the threads of a run are interleaved, each reply
is the one, and the only one, that the members of the type and the requirements of the interface
make; and each thread that is busy can give such a reply.  When queries come one after the other,
there are as many misses as answers remembered, as many of these as different questions that need
members, and hits and misses together are as many as such questions; what is remembered is what it
is after asking these questions in turn.
-/
theorem replies_uncached (h : r.Produced) {threads : Nat} {moves : List Move}
    (hover : ∀ m ∈ moves, m.Over r) (hrun : (start threads).run r moves = some s) :
    (∀ e ∈ s.replies, e.query.Answered r e.reply ∧ ∀ reply, e.query.Answered r reply →
      reply = e.reply) ∧
    (∀ t query stage, s.threads[t]? = some (.busy query stage) →
      ∃ k ≤ 4, ∃ s' reply, s.run r (List.replicate k (.proceed t)) = some s' ∧ s'.threads[t]? =
        some .idle ∧ s'.replies = s.replies ++ [⟨t, query, reply⟩] ∧ query.Answered r reply) ∧
    ((start threads).sequential r moves = true → s.quiet = true →
      s.cache.misses = s.cache.answers.length ∧
      s.cache.misses = (Question.counted r (moves.filterMap Move.question?)).dedup.length ∧
      s.cache.hits + s.cache.misses = (Question.counted r (moves.filterMap Move.question?)).length ∧
      s.cache = SatisfactionCache.replay {} r (moves.filterMap Move.question?)) := by
  have hr := h.inOrder
  have hkept : Kept r s := (kept_start threads).run hr hover hrun
  refine ⟨fun e he => ?_, fun t query stage hbusy => ?_, fun hseq hquiet => ?_⟩
  · obtain ⟨-, hanswered⟩ := hkept.replies e he
    refine ⟨hanswered, fun reply hreply => ?_⟩
    obtain ⟨a, ha, hsame⟩ := hanswered
    obtain ⟨b, hb, rfl⟩ := hreply
    rw [hsame, hr.answers_unique ha hb]
  · obtain ⟨-, n, hn, hstage⟩ := hkept.threads query stage (mem_of_getElem? hbusy)
    obtain ⟨k, hk, s', reply, hfinish, hidle, hreplies⟩ := hkept.finish hr hbusy hstage
    have hproceed : ∀ m ∈ List.replicate k (Move.proceed t), m.Over r := by
      intro m hm
      rw [eq_of_mem_replicate hm]
      trivial
    have hserved := (hkept.run hr hproceed hfinish).replies ⟨t, query, reply⟩ (by simp [hreplies])
    exact ⟨k, by omega, s', reply, hfinish, hidle, hreplies, hserved.2⟩
  · have hcache := ((inTurn_start threads).run hseq hrun).cache hquiet
    have hcounted := SatisfactionCache.counted_empty.replay (questions_answered hr hover)
    rw [nil_append] at hcache hcounted
    rw [← hcache] at hcounted
    exact ⟨hcounted.misses, hcounted.misses.trans hcounted.size, hcounted.total, hcache⟩

/-- Two threads ask at the same time whether a box is labelled, and neither finds an answer. -/
def race : List Move :=
  let q : Question := ⟨.struct ⟨3, "Box"⟩, ⟨2, "Labelled"⟩⟩
  [.issue 0 (.mismatch q), .issue 1 (.satisfies q), .proceed 0, .proceed 1, .proceed 0,
    .proceed 1, .proceed 1,
   .proceed 0, .proceed 1, .proceed 0]

/-- One thread requires the alias of a box to have a size, and then another asks whether it has. -/
def turns : List Move :=
  let q : Question := ⟨.alias ⟨4, "Crate"⟩, ⟨1, "Sized"⟩⟩
  [.issue 0 (.require q .nowhere), .proceed 0, .proceed 0, .proceed 0, .proceed 0,
   .issue 1 (.satisfies q), .proceed 1, .proceed 1]

/-- In the race the answer is computed and stored twice; in turn it is computed once. -/
theorem replies_uncached_shelf : ∃ r : Registry, r.Produced ∧ r.frozen = true ∧
    (∃ s, (start 2).run r race = some s ∧ s.cache.misses = 2 ∧ s.cache.answers.length = 1 ∧
      s.replies.map (fun e => (e.thread, e.reply.toOption)) =
        [(1, some (.satisfied true)), (0, some (.mismatch none))] ∧
      ∀ e ∈ s.replies, e.query.Answered r e.reply) ∧
    ∃ s, (start 2).run r turns = some s ∧
      s.replies.map (fun e => (e.thread, e.reply.toOption)) =
        [(0, none), (1, some (.satisfied false))] ∧
      (∀ e ∈ s.replies, e.query.Answered r e.reply) ∧
      s.cache.misses = s.cache.answers.length ∧
      s.cache.misses = (Question.counted r (turns.filterMap Move.question?)).dedup.length ∧
      s.cache.hits + s.cache.misses =
        (Question.counted r (turns.filterMap Move.question?)).length := by
  have hchecks : Registry.shelved.toOption.map (fun r =>
      decide (∀ m ∈ race ++ turns, m.Over r.freeze) && (start 2).sequential r.freeze turns) =
        some true := by
    decide +kernel
  have hraced : Registry.shelved.toOption.bind (fun r => ((start 2).run r.freeze race).map fun s =>
      (s.cache.misses, s.cache.answers.length,
        s.replies.map fun e => (e.thread, e.reply.toOption))) =
      some (2, 1, [(1, some (.satisfied true)), (0, some (.mismatch none))]) := by decide +kernel
  have hturned : Registry.shelved.toOption.bind
    (fun r => ((start 2).run r.freeze turns).map fun s =>
      (s.quiet, s.replies.map fun e => (e.thread, e.reply.toOption))) =
      some (true, [(0, none), (1, some (.satisfied false))]) := by decide +kernel
  obtain ⟨opened, hopened, hchecks⟩ := Option.map_eq_some_iff.1 hchecks
  rw [hopened, Option.bind_some, Option.map_eq_some_iff] at hraced hturned
  simp only [Prod.mk.injEq] at hraced hturned
  obtain ⟨raced, hrace, hmisses, hlength, hreplies⟩ := hraced
  obtain ⟨turned, hturns, hquiet, hreplies'⟩ := hturned
  obtain ⟨hover, hseq⟩ := Bool.and_eq_true_iff.1 hchecks
  obtain ⟨hoverRace, hoverTurns⟩ := forall_mem_append.1 (of_decide_eq_true hover)
  have hproduced : opened.freeze.Produced :=
    .frozen (Registry.shelved_produced (Except.toOption_eq_some.1 hopened))
  obtain ⟨hanswered, -, -⟩ := replies_uncached hproduced hoverRace hrace
  obtain ⟨hanswered', -, hcounts⟩ := replies_uncached hproduced hoverTurns hturns
  obtain ⟨hsize, hdistinct, htotal, -⟩ := hcounts hseq hquiet
  exact ⟨opened.freeze, hproduced, rfl,
    ⟨raced, hrace, hmisses, hlength, hreplies, fun e he => (hanswered e he).1⟩,
    turned, hturns, hreplies', fun e he => (hanswered' e he).1, hsize, hdistinct, htotal⟩

end Sharing

end TreeTyping
