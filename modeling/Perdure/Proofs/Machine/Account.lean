import Mathlib.Data.List.Induction
import Mathlib.Data.List.InsertIdx
import Mathlib.Data.List.Perm.Basic
import Mathlib.Logic.Relation
import Perdure.Proofs.Machine.Routine
import Perdure.Proofs.Soup

/-!
# What becomes of messages and choices

Beside an instance an account is kept of all that is sent, closed, received and taken, and every
choice that is registered gets a number.  The account balances: on a channel that is not closed,
what waited at first and what was sent since is what was removed, in this order, and what still
waits.  On a channel that was closed nothing is removed any more, and every choice is used up once
at most.

## Main definitions

* `Account.Entry`, `Account` — what is written down, and the instance that it is about.
* `Routine.follow`, `Account.step`, `Account.run` — routines, reductions and requests from outside,
  with their account.
* `Account.Happens` — the changes of an account of which everything else is made.
* `Account.Balanced`, `Account.Numbered` — what every change keeps.

## Main results

* `Account.step?_eq` — without the account, these are the reductions of the program.
* `Account.delivers` — messages are delivered in order and once, and choices are used once.
* `Account.receives_on_closed` — a channel that was closed with messages on it is an exception.
-/

namespace Perdure

/-- What is written down about an instance. -/
inductive Account.Entry (η μ : Type) where
  | sent (c : Channel) (m : μ)
  | closed (c : Channel)
  /-- A reduction used up the choice of a number: this arm of it took the message. -/
  | received (number : Nat) (arm : Arm η) (m : μ)
  /-- The messages of a channel were taken from outside. -/
  | taken (c : Channel) (ms : List μ)

namespace Account.Entry

variable {η μ : Type}

/-- The messages sent on a channel. -/
def sentOn (c : Channel) : Entry η μ → List μ
  | sent d m => if d = c then [m] else []
  | _ => []

/-- The messages removed from a channel. -/
def removedFrom (c : Channel) : Entry η μ → List μ
  | received _ arm m => if arm.channel = c then [m] else []
  | taken d ms => if d = c then ms else []
  | _ => []

/-- The number of the choice that is used up, if one is. -/
def used? : Entry η μ → Option Nat
  | received number _ _ => some number
  | _ => none

end Account.Entry

namespace Deed

variable {γ π η μ : Type}

/-- What is written down about a deed. -/
def entry? : Deed γ π η μ → Option (Account.Entry η μ)
  | send c m => some (.sent c m)
  | close c => some (.closed c)
  | _ => none

/-- The choice that is registered by a deed.  One without arms is not. -/
def choice? : Deed γ π η μ → Option (Choice η)
  | object choice => if choice.arms.isEmpty then none else some choice
  | _ => none

end Deed

/-- Where the choice stands that can receive first. -/
def Soup.firstMatch {γ π η μ : Type} (s : Soup γ π η μ) : Nat :=
  s.choices.findIdx fun choice => choice.arms.any s.isReady

/-- An instance with its account. -/
structure Account (γ π η μ : Type) where
  soup : Soup γ π η μ
  /-- All choices that were ever registered.  The number of a choice is its place here. -/
  registered : List (Choice η)
  /-- The numbers of the choices that wait, in the order in which they do. -/
  waiting : List Nat
  /-- What happened, oldest first. -/
  entries : List (Account.Entry η μ) := []

namespace Account

variable {γ π η μ ε : Type}

/-- The account of an instance from which nothing has happened yet. -/
def start (s : Soup γ π η μ) : Account γ π η μ where
  soup := s
  registered := s.choices
  waiting := List.range s.choices.length

/-- The messages sent on a channel, in order. -/
def sentOn (a : Account γ π η μ) (c : Channel) : List μ := a.entries.flatMap (·.sentOn c)

/-- The messages removed from a channel, in order. -/
def removedFrom (a : Account γ π η μ) (c : Channel) : List μ := a.entries.flatMap (·.removedFrom c)

/-- The numbers of the choices that were used up, in order. -/
def used (a : Account γ π η μ) : List Nat := a.entries.filterMap (·.used?)

/-- A deed is done. -/
def perform (a : Account γ π η μ) (d : Deed γ π η μ) : Account γ π η μ where
  soup := d.apply a.soup
  registered := a.registered ++ d.choice?.toList
  waiting := a.waiting ++ (d.choice?.map fun _ => a.registered.length).toList
  entries := a.entries ++ d.entry?.toList

/-- A choice is used up by a message that one of its arms takes. -/
def receive (a : Account γ π η μ) (arm : Arm η) (m : μ) (soup : Soup γ π η μ) :
    Account γ π η μ :=
  let place := a.soup.firstMatch
  { a with
    soup
    waiting := a.waiting.eraseIdx place
    entries := a.entries ++ [.received (a.waiting.getD place 0) arm m] }

/-- The messages of a channel are taken from outside. -/
def take (a : Account γ π η μ) (c : Channel) : Account γ π η μ :=
  let (ms, soup) := a.soup.takeMessages c
  { a with soup, entries := a.entries ++ [.taken c ms] }

end Account

/-- What a routine comes to, each time it looks at the clock at the time that the clock shows next.
What it did before it failed stays done. -/
def Routine.follow {γ π η μ ε : Type} :
    Routine γ π η μ ε → (Nat → Instant) → Account γ π η μ → Except ε Unit × Account γ π η μ
  | done, _, a => (.ok (), a)
  | fail e, _, a => (.error e, a)
  | deed d rest, clock, a => rest.follow clock (a.perform d)
  | newChannel rest, clock, a =>
    let (c, soup) := a.soup.newChannel
    (rest c).follow clock { a with soup }
  | genMonotonic rest, clock, a =>
    let (n, soup) := a.soup.genMonotonic
    (rest n).follow clock { a with soup }
  | global rest, clock, a => (rest a.soup.global).follow clock a
  | now rest, clock, a => (rest (clock 0)).follow (fun n => clock (n + 1)) a

namespace Account

variable {γ π η μ ε : Type}

/-- What can be asked of an instance from outside. -/
inductive Request (π μ : Type) where
  /-- One reduction, during which the clock may move on. -/
  | step (clock : Nat → Instant)
  | inject (c : Channel) (m : μ)
  | spawn (p : π)
  | take (c : Channel)

/-- One reduction; was there anything to reduce? -/
def step (R : Routines γ π η μ ε) (clock : Nat → Instant) (a : Account γ π η μ) :
    Except ε Bool × Account γ π η μ :=
  match a.soup.takeRunnable? with
  | some (p, soup) => ((R.run p).follow clock { a with soup }).map (·.map fun _ => true) id
  | none => match a.soup.takeMatch? with
    | some (arm, m, soup) =>
      ((R.receive arm.handler arm.channel m).follow clock (a.receive arm m soup)).map
        (·.map fun _ => true) id
    | none => (.ok false, a)

/-- A request is served. -/
def serve (R : Routines γ π η μ ε) (a : Account γ π η μ) : Request π μ → Account γ π η μ
  | .step clock => (a.step R clock).2
  | .inject c m => a.perform (.send c m)
  | .spawn p => a.perform (.spawn p)
  | .take c => a.take c

/-- Requests are served one after another. -/
def run (R : Routines γ π η μ ε) (s : Soup γ π η μ) (requests : List (Request π μ)) :
    Account γ π η μ :=
  requests.foldl (serve R) (start s)

/-! ### Without the account -/

theorem turn_eq (r : Routine γ π η μ ε) (now : Instant) (a : Account γ π η μ) :
    (r.turn now).run a.soup =
      (r.follow (fun _ => now) a).1.map fun _ => ((), (r.follow (fun _ => now) a).2.soup) := by
  induction r generalizing a with
  | done => rfl
  | fail e => rfl
  | deed d rest ih => exact ih (a.perform d)
  | newChannel rest ih => exact ih _ { a with soup := a.soup.newChannel.2 }
  | genMonotonic rest ih => exact ih _ { a with soup := a.soup.genMonotonic.2 }
  | global rest ih => exact ih _ a
  | now rest ih => exact ih _ a

theorem map_turn (r : Routine γ π η μ ε) (now : Instant) (a : Account γ π η μ) :
    ((r.turn now).run a.soup).map (fun result => some result.2) =
      let result := (r.follow (fun _ => now) a).map (·.map fun _ => true) id
      result.1.map fun more => if more then some result.2.soup else none := by
  rw [turn_eq]
  generalize r.follow (fun _ => now) a = result
  obtain ⟨e | u, b⟩ := result <;> rfl

/-- Under a clock that stands still, reductions with and without the account are the same. -/
theorem step?_eq (R : Routines γ π η μ ε) (now : Instant) (a : Account γ π η μ) :
    R.program.step? now a.soup =
      (a.step R fun _ => now).1.map fun more =>
        if more then some (a.step R fun _ => now).2.soup else none := by
  unfold Program.step? step
  cases a.soup.takeRunnable? with
  | some taken => exact map_turn (R.run taken.1) now { a with soup := taken.2 }
  | none => cases a.soup.takeMatch? with
    | some taken =>
      obtain ⟨arm, m, soup⟩ := taken
      exact map_turn (R.receive arm.handler arm.channel m) now (a.receive arm m soup)
    | none => rfl

/-! ### Changes of an account -/

/-- What can happen to an account at a time. -/
inductive Happens (a : Account γ π η μ) : Account γ π η μ → Prop
  | performed (d : Deed γ π η μ) : Happens a (a.perform d)
  /-- Something about which nothing is written down. -/
  | passed {soup : Soup γ π η μ} (hm : soup.messages = a.soup.messages)
      (hc : soup.closed = a.soup.closed) (hch : soup.choices = a.soup.choices) :
      Happens a { a with soup }
  | received {arm : Arm η} {m : μ} {soup : Soup γ π η μ}
      (h : a.soup.takeMatch? = some (arm, m, soup)) : Happens a (a.receive arm m soup)
  | taken (c : Channel) : Happens a (a.take c)

open Relation (ReflTransGen)

theorem happens_follow (r : Routine γ π η μ ε) (clock : Nat → Instant) (a : Account γ π η μ) :
    ReflTransGen Happens a (r.follow clock a).2 := by
  induction r generalizing clock a with
  | done | fail => exact .refl
  | deed d rest ih => exact .head (.performed d) (ih clock _)
  | newChannel rest ih =>
    have hpassed : Happens a { a with soup := a.soup.newChannel.2 } := .passed rfl rfl rfl
    exact .head hpassed (ih _ clock _)
  | genMonotonic rest ih =>
    have hpassed : Happens a { a with soup := a.soup.genMonotonic.2 } := .passed rfl rfl rfl
    exact .head hpassed (ih _ clock _)
  | global rest ih => exact ih _ clock a
  | now rest ih => exact ih _ _ a

theorem happens_step (R : Routines γ π η μ ε) (clock : Nat → Instant) (a : Account γ π η μ) :
    ReflTransGen Happens a (a.step R clock).2 := by
  unfold step
  split
  · next p soup h =>
    have hpassed : Happens a { a with soup } := by
      unfold Soup.takeRunnable? at h
      split at h
      · cases h
      · cases h
        exact .passed rfl rfl rfl
    exact .head hpassed (happens_follow (R.run p) clock _)
  · split
    · next arm m soup h =>
      exact .head (.received h) (happens_follow (R.receive arm.handler arm.channel m) clock _)
    · exact .refl

theorem happens_run (R : Routines γ π η μ ε) (s : Soup γ π η μ) (requests : List (Request π μ)) :
    ReflTransGen Happens (start s) (run R s requests) := by
  induction requests using List.reverseRecOn with
  | nil => exact .refl
  | append_singleton requests request ih =>
    rw [run, List.foldl_append]
    refine ReflTransGen.trans ih ?_
    cases request with
    | step clock => exact happens_step R clock _
    | inject c m => exact .single (.performed (.send c m))
    | spawn p => exact .single (.performed (.spawn p))
    | take c => exact .single (.taken c)

end Account

/-! ### Deeds and queues -/

namespace Deed

variable {γ π η μ : Type} {s : Soup γ π η μ} {d : Deed γ π η μ} {c : Channel}

/-- A deed sends, closes, or leaves all messages and closed channels. -/
theorem message_cases (s : Soup γ π η μ) (d : Deed γ π η μ) :
    (∃ q m, d = .send q m) ∨ (∃ q, d = .close q) ∨
      d.entry? = none ∧ (d.apply s).messages = s.messages ∧ (d.apply s).closed = s.closed := by
  cases d with
  | send q m => exact .inl ⟨q, m, rfl⟩
  | close q => exact .inr (.inl ⟨q, rfl⟩)
  | object choice =>
    refine .inr (.inr ⟨rfl, ?_⟩)
    change (s.object choice).messages = _ ∧ (s.object choice).closed = _
    unfold Soup.object
    split <;> exact ⟨rfl, rfl⟩
  | cancelTimer q =>
    refine .inr (.inr ⟨rfl, ?_⟩)
    change (s.cancelTimer q).messages = _ ∧ (s.cancelTimer q).closed = _
    rw [Soup.cancelTimer_frame]
    exact ⟨rfl, rfl⟩
  | setGlobal | spawn | registerTimer => exact .inr (.inr ⟨rfl, rfl, rfl⟩)

theorem isClosed_apply (s : Soup γ π η μ) (d : Deed γ π η μ) (c : Channel) :
    (d.apply s).isClosed c = true ↔ d.entry? = some (.closed c) ∨ s.isClosed c = true := by
  rcases d.message_cases s with ⟨q, m, rfl⟩ | ⟨q, rfl⟩ | ⟨hnone, -, hclosed⟩
  · simp [apply, entry?]
  · simp [apply, entry?, eq_comm (a := c)]
  · rw [hnone, Soup.isClosed, hclosed]
    simp [Soup.isClosed]

/-- On a channel that is open afterwards, a deed adds what it sends. -/
theorem queue_apply (h : (d.apply s).isClosed c = false) :
    (d.apply s).queue c = s.queue c ++ d.entry?.toList.flatMap (·.sentOn c) := by
  rcases d.message_cases s with ⟨q, m, rfl⟩ | ⟨q, rfl⟩ | ⟨hnone, hmessages, -⟩
  · rw [apply, Soup.isClosed_send] at h
    by_cases hq : c = q
    · subst hq
      simp [apply, entry?, Account.Entry.sentOn, Soup.queue_send, h]
    · simp [apply, entry?, Account.Entry.sentOn, Soup.queue_send, hq, Ne.symm hq]
  · have hne : c ≠ q := by
      rintro rfl
      simp [apply] at h
    simp [apply, entry?, Account.Entry.sentOn, hne]
  · rw [hnone, Soup.queue, hmessages]
    exact (List.append_nil _).symm

/-- On a channel that is closed and empty, or that it closes, a deed leaves nothing. -/
theorem queue_apply_of_closed
    (h : d.entry? = some (.closed c) ∨ s.isClosed c = true ∧ s.queue c = []) :
    (d.apply s).queue c = [] := by
  rcases d.message_cases s with ⟨q, m, rfl⟩ | ⟨q, rfl⟩ | ⟨hnone, hmessages, -⟩
  · obtain he | ⟨hclosed, hempty⟩ := h
    · cases he
    · rw [apply, Soup.queue_send, if_neg fun hq => by simp [← hq.1, hclosed] at hq, hempty]
  · rw [apply, Soup.queue_close]
    split
    · rfl
    · next hne =>
      obtain he | ⟨-, hempty⟩ := h
      · cases he
        exact absurd rfl hne
      · exact hempty
  · rw [Soup.queue, hmessages]
    obtain he | ⟨-, hempty⟩ := h
    · rw [hnone] at he
      cases he
    · exact hempty

/-- A deed removes nothing. -/
theorem removedFrom_entry? (d : Deed γ π η μ) (c : Channel) :
    d.entry?.toList.flatMap (·.removedFrom c) = [] := by
  cases d <;> rfl

theorem choices_apply (s : Soup γ π η μ) (d : Deed γ π η μ) :
    (d.apply s).choices = s.choices ++ d.choice?.toList := by
  cases d with
  | object choice =>
    change (s.object choice).choices = _
    by_cases hempty : choice.arms.isEmpty <;> simp [Soup.object, choice?, hempty]
  | send q m =>
    change (s.send q m).choices = _
    rw [Soup.send_frame]
    exact (List.append_nil _).symm
  | cancelTimer q =>
    change (s.cancelTimer q).choices = _
    rw [Soup.cancelTimer_frame]
    exact (List.append_nil _).symm
  | setGlobal | spawn | close | registerTimer => exact (List.append_nil _).symm

end Deed

namespace Soup

variable {γ π η μ : Type} {s s' : Soup γ π η μ} {arm : Arm η} {m : μ}

theorem firstReady?_eq {cs others : List (Choice η)} (h : s.firstReady? cs = some (arm, others)) :
    let place := cs.findIdx fun choice => choice.arms.any s.isReady
    ∃ choice, cs[place]? = some choice ∧ choice.arms.find? s.isReady = some arm ∧
      others = cs.eraseIdx place := by
  induction cs generalizing others with
  | nil => cases h
  | cons c cs ih =>
    rw [firstReady?] at h
    rw [List.findIdx_cons]
    split at h
    · next b hb =>
      cases h
      have hready : c.arms.any s.isReady = true :=
        List.any_eq_true.2 ⟨arm, List.mem_of_find?_eq_some hb, List.find?_some hb⟩
      rw [hready]
      exact ⟨c, rfl, hb, rfl⟩
    · next hnone =>
      have hidle : c.arms.any s.isReady = false := by
        rw [List.any_eq_false]
        exact List.find?_eq_none.1 hnone
      obtain ⟨⟨b, rest⟩, hrest, he⟩ := Option.map_eq_some_iff.1 h
      cases he
      obtain ⟨choice, hchoice, harm, rfl⟩ := ih hrest
      rw [hidle]
      exact ⟨choice, hchoice, harm, rfl⟩

/-- The choice that is used up is the first that can receive, and so is the arm. -/
theorem choices_takeMatch? (h : s.takeMatch? = some (arm, m, s')) :
    ∃ choice, s.choices[s.firstMatch]? = some choice ∧ choice.arms.find? s.isReady = some arm ∧
      s'.choices = s.choices.eraseIdx s.firstMatch := by
  rw [takeMatch?_eq] at h
  split at h
  · cases h
  · next hready =>
    split at h
    · cases h
    · cases h
      exact firstReady?_eq hready

end Soup

namespace Account

open Relation (ReflTransGen)

variable {γ π η μ ε : Type} {s : Soup γ π η μ} {a a' : Account γ π η μ} {c : Channel}

/-! ### Messages -/

/-- What was written down since a channel was closed.  One that was closed from the start counts if
it was empty. -/
inductive ClosedSince (s : Soup γ π η μ) (a : Account γ π η μ) (c : Channel) :
    List (Entry η μ) → Prop
  | closed {past since : List (Entry η μ)} (h : a.entries = past ++ .closed c :: since) :
      ClosedSince s a c since
  | ever (hc : s.isClosed c = true) (hempty : s.queue c = []) : ClosedSince s a c a.entries

/-- What comes of the first soup and the requests so far, as far as messages go. -/
structure Balanced (s : Soup γ π η μ) (a : Account γ π η μ) : Prop where
  queue : ∀ c, a.soup.isClosed c = false →
    s.queue c ++ a.sentOn c = a.removedFrom c ++ a.soup.queue c
  shut : ∀ c since, ClosedSince s a c since →
    a.soup.isClosed c = true ∧ a.soup.queue c = [] ∧ since.flatMap (·.removedFrom c) = []

/-- One more entry at most is written down after those since a channel was closed, or it is the one
that it is closed. -/
theorem ClosedSince.of_append {since : List (Entry η μ)} (h : ClosedSince s a' c since)
    {e : Option (Entry η μ)} (he : a'.entries = a.entries ++ e.toList) :
    (∃ before, ClosedSince s a c before ∧ since = before ++ e.toList) ∨
      e = some (.closed c) ∧ since = [] := by
  cases h with
  | ever hc hempty => exact .inl ⟨a.entries, .ever hc hempty, he⟩
  | @closed past since h =>
    rw [he] at h
    cases e with
    | none => exact .inl ⟨since, .closed ((List.append_nil _).symm.trans h), (List.append_nil _).symm⟩
    | some e =>
      rcases List.eq_nil_or_concat since with rfl | ⟨before, e', rfl⟩
      · obtain ⟨-, hlast⟩ := List.append_inj' h rfl
        cases hlast
        exact .inr ⟨rfl, rfl⟩
      · rw [List.concat_eq_append, ← List.cons_append, ← List.append_assoc] at h
        obtain ⟨hbefore, hlast⟩ := List.append_inj' h rfl
        cases hlast
        exact .inl ⟨before, .closed hbefore, List.concat_eq_append⟩

theorem balanced_start (s : Soup γ π η μ) : Balanced s (start s) where
  queue c _ := List.append_nil _
  shut c since h := by
    cases h with
    | closed h => exact absurd h (by simp [start])
    | ever hc hempty => exact ⟨hc, hempty, rfl⟩

theorem Balanced.performed (h : Balanced s a) (d : Deed γ π η μ) : Balanced s (a.perform d) where
  queue c hopen := by
    have hbefore : a.soup.isClosed c = false := by
      rw [← Bool.not_eq_true] at hopen ⊢
      exact fun hclosed => hopen ((d.isClosed_apply a.soup c).2 (.inr hclosed))
    change _ ++ (a.entries ++ d.entry?.toList).flatMap _ =
      (a.entries ++ d.entry?.toList).flatMap _ ++ (d.apply a.soup).queue c
    rw [List.flatMap_append, List.flatMap_append, d.removedFrom_entry? c, List.append_nil,
      Deed.queue_apply hopen, ← List.append_assoc, ← List.append_assoc]
    exact congrArg (· ++ _) (h.queue c hbefore)
  shut c since hsince := by
    rcases hsince.of_append (a := a) rfl with ⟨before, hbefore, rfl⟩ | ⟨he, rfl⟩
    · obtain ⟨hclosed, hempty, hsilent⟩ := h.shut c before hbefore
      refine ⟨(d.isClosed_apply a.soup c).2 (.inr hclosed),
        Deed.queue_apply_of_closed (.inr ⟨hclosed, hempty⟩), ?_⟩
      rw [List.flatMap_append, hsilent, d.removedFrom_entry? c]
      rfl
    · exact ⟨(d.isClosed_apply a.soup c).2 (.inl he), Deed.queue_apply_of_closed (.inl he), rfl⟩

theorem Balanced.passed (h : Balanced s a) {soup : Soup γ π η μ}
    (hm : soup.messages = a.soup.messages) (hc : soup.closed = a.soup.closed) :
    Balanced s { a with soup } := by
  have hqueue (c : Channel) : soup.queue c = a.soup.queue c := by rw [Soup.queue, hm]; rfl
  have hclosed (c : Channel) : soup.isClosed c = a.soup.isClosed c := by
    rw [Soup.isClosed, hc]; rfl
  refine ⟨fun c hopen => ?_, fun c since hsince => ?_⟩
  · rw [hqueue]
    exact h.queue c (hclosed c ▸ hopen)
  · rw [hclosed, hqueue]
    refine h.shut c since ?_
    cases hsince with
    | closed h => exact .closed h
    | ever hc hempty => exact .ever hc hempty

/-- What an entry removes is taken from the front of the queues. -/
theorem Balanced.removed (h : Balanced s a) {e : Entry η μ}
    (hentries : a'.entries = a.entries ++ [e]) (hclosed : a'.soup.closed = a.soup.closed)
    (hsent : ∀ c, e.sentOn c = []) (hne : ∀ c, e ≠ .closed c)
    (hqueue : ∀ c, a.soup.queue c = e.removedFrom c ++ a'.soup.queue c) : Balanced s a' := by
  have hshut (c : Channel) : a'.soup.isClosed c = a.soup.isClosed c := by
    rw [Soup.isClosed, hclosed]
    rfl
  refine ⟨fun c hopen => ?_, fun c since hsince => ?_⟩
  · have hsents : a'.sentOn c = a.sentOn c := by
      rw [sentOn, hentries, List.flatMap_append, List.flatMap_singleton, hsent, List.append_nil]
      rfl
    have hremoved : a'.removedFrom c = a.removedFrom c ++ e.removedFrom c := by
      rw [removedFrom, hentries, List.flatMap_append, List.flatMap_singleton]
      rfl
    rw [hsents, hremoved, List.append_assoc, ← hqueue]
    exact h.queue c (hshut c ▸ hopen)
  · rcases hsince.of_append (e := some e) hentries with ⟨before, hbefore, rfl⟩ | ⟨he, -⟩
    · obtain ⟨hshut', hempty, hsilent⟩ := h.shut c before hbefore
      -- nothing waited there, so that nothing is removed
      rw [hqueue, List.append_eq_nil_iff] at hempty
      refine ⟨(hshut c).trans hshut', hempty.2, ?_⟩
      rw [List.flatMap_append, hsilent, Option.toList_some, List.flatMap_singleton, hempty.1]
      rfl
    · exact absurd (Option.some.inj he) (hne c)

theorem Balanced.received (h : Balanced s a) {arm : Arm η} {m : μ} {soup : Soup γ π η μ}
    (hmatch : a.soup.takeMatch? = some (arm, m, soup)) : Balanced s (a.receive arm m soup) := by
  refine h.removed rfl ?_ (fun _ => rfl) (fun _ => nofun) fun c => ?_
  · obtain ⟨_, _, _, -, -, he⟩ := Soup.exists_of_takeMatch? hmatch
    change soup.closed = _
    rw [he]
  · rw [Soup.queue_takeMatch? hmatch c, Entry.removedFrom]
    by_cases hc : c = arm.channel
    · rw [if_pos hc, if_pos hc.symm]
      rfl
    · rw [if_neg hc, if_neg (Ne.symm hc)]
      rfl

theorem Balanced.taken (h : Balanced s a) (q : Channel) : Balanced s (a.take q) := by
  refine h.removed rfl rfl (fun _ => rfl) (fun _ => nofun) fun c => ?_
  change a.soup.queue c = (if q = c then a.soup.queue q else []) ++
    (a.soup.takeMessages q).2.queue c
  rw [Soup.queue_takeMessages]
  by_cases hc : c = q
  · rw [if_pos hc, if_pos hc.symm, hc, List.append_nil]
  · rw [if_neg hc, if_neg (Ne.symm hc), List.nil_append]

theorem Balanced.happens (h : Balanced s a) (ha : Happens a a') : Balanced s a' := by
  cases ha with
  | performed d => exact h.performed d
  | passed hm hc => exact h.passed hm hc
  | received hmatch => exact h.received hmatch
  | taken c => exact h.taken c

/-! ### Choices -/

/-- Every choice has one number, and waits or was used up once. -/
structure Numbered (a : Account γ π η μ) : Prop where
  numbers : (a.waiting ++ a.used).Perm (List.range a.registered.length)
  choices : a.waiting.map (a.registered[·]?) = a.soup.choices.map some
  arms : ∀ number arm m, .received number arm m ∈ a.entries →
    ∃ choice, a.registered[number]? = some choice ∧ arm ∈ choice.arms

theorem numbered_start (s : Soup γ π η μ) : Numbered (start s) where
  numbers := .of_eq (List.append_nil _)
  choices := by
    refine List.ext_getElem? fun n => ?_
    rw [List.getElem?_map, List.getElem?_map]
    by_cases hn : n < s.choices.length <;> simp [start, hn]
  arms _ _ _ h := absurd h (by simp [start])

theorem Numbered.performed (h : Numbered a) (d : Deed γ π η μ) : Numbered (a.perform d) := by
  have hused : (a.perform d).used = a.used := by
    change (a.entries ++ d.entry?.toList).filterMap _ = _
    rw [List.filterMap_append]
    cases d <;> exact List.append_nil _
  have hlt (k : Nat) (hk : k ∈ a.waiting) : k < a.registered.length :=
    List.mem_range.1 (h.numbers.subset (List.mem_append_left _ hk))
  have harms (number : Nat) (arm : Arm η) (m : μ)
      (hmem : .received number arm m ∈ a.entries ++ d.entry?.toList) :
      ∃ choice, (a.registered ++ d.choice?.toList)[number]? = some choice ∧ arm ∈ choice.arms := by
    rcases List.mem_append.1 hmem with hmem | hmem
    · obtain ⟨choice, hchoice, harm⟩ := h.arms number arm m hmem
      exact ⟨choice, List.getElem?_append_left (List.getElem?_eq_some_iff.1 hchoice).1 ▸ hchoice, harm⟩
    · cases d <;> simp [Deed.entry?] at hmem
  refine ⟨?_, ?_, harms⟩
  · rw [hused]
    cases hchoice : d.choice? with
    | none => simpa [perform, hchoice] using h.numbers
    | some choice =>
      simp only [perform, hchoice, Option.map_some, Option.toList_some, List.length_append,
        List.length_singleton, List.range_succ]
      rw [List.append_assoc]
      exact (List.perm_append_comm.append_left _).trans
        (by rw [← List.append_assoc]; exact h.numbers.append_right _)
  · change (a.waiting ++ _).map _ = (d.apply a.soup).choices.map some
    rw [d.choices_apply, List.map_append, List.map_append, ← h.choices]
    congr 1
    · exact List.map_congr_left fun k hk => List.getElem?_append_left (hlt k hk)
    · cases hchoice : d.choice? <;> simp [perform, hchoice]

theorem Numbered.received (h : Numbered a) {arm : Arm η} {m : μ} {soup : Soup γ π η μ}
    (hmatch : a.soup.takeMatch? = some (arm, m, soup)) : Numbered (a.receive arm m soup) := by
  obtain ⟨choice, hplace, harm, herase⟩ := Soup.choices_takeMatch? hmatch
  -- the number that stands at the place of the choice is the number of the choice
  obtain ⟨number, hnumber, hregistered⟩ : ∃ number, a.waiting[a.soup.firstMatch]? = some number ∧
      a.registered[number]? = some choice := by
    have hat := congrArg (·[a.soup.firstMatch]?) h.choices
    simpa [hplace] using hat
  obtain ⟨hlt, hat⟩ := List.getElem?_eq_some_iff.1 hnumber
  have hentry : a.waiting.getD a.soup.firstMatch 0 = number := by
    rw [List.getD_eq_getElem?_getD, hnumber]
    rfl
  have hperm : (number :: a.waiting.eraseIdx a.soup.firstMatch).Perm a.waiting :=
    hat ▸ List.getElem_cons_eraseIdx_perm hlt
  refine ⟨?_, ?_, fun k arm' m' hmem => ?_⟩
  · change (a.waiting.eraseIdx _ ++ (a.entries ++ [_]).filterMap _).Perm _
    rw [List.filterMap_append, hentry]
    change (a.waiting.eraseIdx _ ++ (a.used ++ [number])).Perm _
    rw [← List.append_assoc]
    exact (List.perm_append_singleton ..).trans ((hperm.append_right a.used).trans h.numbers)
  · change (a.waiting.eraseIdx _).map _ = soup.choices.map some
    rw [herase, ← List.eraseIdx_map, ← List.eraseIdx_map, ← h.choices]
    rfl
  · rcases List.mem_append.1 hmem with hmem | hmem
    · exact h.arms k arm' m' hmem
    · rw [hentry] at hmem
      cases List.mem_singleton.1 hmem
      exact ⟨choice, hregistered, List.mem_of_find?_eq_some harm⟩

theorem Numbered.happens (h : Numbered a) (ha : Happens a a') : Numbered a' := by
  cases ha with
  | performed d => exact h.performed d
  | passed _ _ hch => exact ⟨h.numbers, hch ▸ h.choices, h.arms⟩
  | received hmatch => exact h.received hmatch
  | taken c =>
    refine ⟨?_, h.choices, fun k arm m hmem => ?_⟩
    · change (a.waiting ++ (a.entries ++ [_]).filterMap _).Perm _
      rw [List.filterMap_append]
      exact (List.append_nil a.used).symm ▸ h.numbers
    · rcases List.mem_append.1 hmem with hmem | hmem
      · exact h.arms k arm m hmem
      · cases List.mem_singleton.1 hmem

/-! ### Runs -/

/-- What holds at first and is kept by whatever happens holds after all requests. -/
theorem run_induction {P : Account γ π η μ → Prop} (hstart : P (start s))
    (hstep : ∀ {a a'}, P a → Happens a a' → P a') (R : Routines γ π η μ ε)
    (requests : List (Request π μ)) : P (run R s requests) := by
  have hrun := happens_run R s requests
  generalize run R s requests = a at hrun
  induction hrun with
  | refl => exact hstart
  | tail _ ha ih => exact hstep ih ha

theorem balanced_run (R : Routines γ π η μ ε) (s : Soup γ π η μ)
    (requests : List (Request π μ)) : Balanced s (run R s requests) :=
  run_induction (balanced_start s) Balanced.happens R requests

theorem numbered_run (R : Routines γ π η μ ε) (s : Soup γ π η μ)
    (requests : List (Request π μ)) : Numbered (run R s requests) :=
  run_induction (numbered_start s) Numbered.happens R requests

/-- **Messages are delivered in order, none is lost and none twice; choices are used once.**
Whatever the routines, the first soup and the requests: each reduction is the one of the program.
On a channel that is not closed, what waited at first and what was sent since is what was removed
and what still waits.  Since a channel was closed, nothing was removed from it, nothing waits on it,
and sending changes nothing.  The choices that were registered wait or were used up, each once, and
a reduction that uses one up runs one of its arms. -/
theorem delivers (R : Routines γ π η μ ε) (s : Soup γ π η μ) (requests : List (Request π μ)) :
    let a := run R s requests
    (∀ now, R.program.step? now a.soup = (a.step R fun _ => now).1.map fun more =>
        if more then some (a.step R fun _ => now).2.soup else none) ∧
      (∀ c, a.soup.isClosed c = false →
        s.queue c ++ a.sentOn c = a.removedFrom c ++ a.soup.queue c) ∧
      (∀ c since, ClosedSince s a c since → since.flatMap (·.removedFrom c) = [] ∧
        a.soup.queue c = [] ∧ ∀ m, a.soup.send c m = a.soup) ∧
      (a.waiting ++ a.used).Perm (List.range a.registered.length) ∧
      a.waiting.map (a.registered[·]?) = a.soup.choices.map some ∧
      ∀ number arm m, .received number arm m ∈ a.entries →
        ∃ choice, a.registered[number]? = some choice ∧ arm ∈ choice.arms := by
  intro a
  have hbalanced := balanced_run R s requests
  have hnumbered := numbered_run R s requests
  refine ⟨fun now => step?_eq R now a, hbalanced.queue, fun c since hsince => ?_,
    hnumbered.numbers, hnumbered.choices, hnumbered.arms⟩
  obtain ⟨hclosed, hempty, hsilent⟩ := hbalanced.shut c since hsince
  exact ⟨hsilent, hempty, fun m => if_pos hclosed⟩

/-! ### A closed channel with messages -/

/-- What was written down stays written down. -/
theorem Happens.prefix (ha : Happens a a') : a.entries <+: a'.entries := by
  cases ha with
  | performed | received | taken => exact List.prefix_append ..
  | passed => exact List.prefix_refl _

theorem prefix_follow (r : Routine γ π η μ ε) (clock : Nat → Instant) (a : Account γ π η μ) :
    a.entries <+: (r.follow clock a).2.entries := by
  have hfollow := happens_follow r clock a
  generalize (r.follow clock a).2 = a' at hfollow
  induction hfollow with
  | refl => exact List.prefix_refl _
  | tail _ ha ih => exact ih.trans ha.prefix

/-- A script of one wait. -/
def lull : Script where
  definition :=
    { processId := "p", name := "P", root := 0
      activities := [{ id := 0, name := none, kind := .wait (.delay "PT1H") }] }
  evaluator occasion :=
    { duration := fun _ => .ok 3600000000000, deadline := fun _ => .ok occasion.now }

/-- A stored wait whose timer has gone off.  The channel of the timer is closed all the same, and the
message was left on it. -/
def sealedWait : InstanceSoup :=
  let wait : Receiver := .waitActivity { id := 1, activity := 0, termination := 1, parent := 2 } 3
  { global := { root := some ⟨1, 2⟩ }
    nextChannel := 4
    nextMonotonic := 2
    choices := [⟨[⟨3, wait⟩, ⟨1, wait⟩]⟩]
    messages := Table.ofList [(3, [.timeout])]
    closed := KeySet.ofMembers [3] }

/-- A choice takes a message from a channel that is closed, if one was stored there. -/
theorem receives_on_closed : ∃ R : Routines Shared Task Receiver Message RunError,
    R.program = lull.program ∧ sealedWait.isClosed 3 = true ∧
      Message.timeout ∈ (run R sealedWait [.step fun _ => ⟨0, 0⟩]).removedFrom 3 := by
  obtain ⟨R, hR⟩ := lull.exists_routines
  refine ⟨R, hR, by decide, ?_⟩
  obtain ⟨arm, soup, hmatch, hchannel⟩ : ∃ arm soup,
      sealedWait.takeMatch? = some (arm, .timeout, soup) ∧ arm.channel = 3 := ⟨_, _, rfl, rfl⟩
  have hstep : run R sealedWait [.step fun _ => ⟨0, 0⟩] =
      ((R.receive arm.handler arm.channel .timeout).follow (fun _ => ⟨0, 0⟩)
        ((start sealedWait).receive arm .timeout soup)).2 := by
    change (step R _ (start sealedWait)).2 = _
    unfold step
    rw [show (start sealedWait).soup.takeRunnable? = none from rfl]
    dsimp only
    rw [show (start sealedWait).soup.takeMatch? = some (arm, .timeout, soup) from hmatch]
    rfl
  rw [hstep]
  refine List.mem_flatMap.2 ⟨.received 0 arm .timeout,
    (prefix_follow _ _ _).subset (List.mem_singleton_self _), ?_⟩
  rw [Entry.removedFrom, if_pos hchannel]
  exact List.mem_singleton_self _

end Account

end Perdure
