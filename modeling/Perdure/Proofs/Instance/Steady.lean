import Perdure.Proofs.Checkpoint
import Perdure.Proofs.Instance.Fits
import Perdure.Proofs.Instance.Pick
import Perdure.Proofs.Machine.Iteration

/-!
# Soups stay within words

A soup is steady when it fits into a checkpoint and every sequence that waits can count its child.
The soup of a new instance is steady.  Messages from outside keep it so, and so does every
reduction, as long as the counters of channels and numbers are words afterwards.

A soup that fits need not be steady: the place of a sequence may be the last one that a word holds.
The sequence then goes on to a place that no word holds, but it does not wait there, so that the
soup fits again as soon as it comes to rest.

## Main definitions

* `Soup.Lasting` — a soup that fits but for its parts, which have a given property.
* `Soup.Steady` — a soup that fits, its instants having a given property, and goes on doing so.
* `Soup.Counted` — the counters of a soup are words.
* `Script.Passes` — a property of parts that is passed on to all that they yield.

## Main results

* `Soup.Lasting.addTo` — the products of a part keep a soup lasting.
* `Script.Passes.lasting_reduces` — so do reductions, under whatever clock.
* `Script.FitsOver.steady_of_execute` — an execution keeps a soup steady.
-/

namespace Perdure

/-- A soup that fits but for its parts, which have a given property. -/
structure Soup.Lasting (T : Instant → Prop) (Q : Part → Prop) (s : InstanceSoup) : Prop where
  others : Soup.Fits T { s with runnables := [], choices := [] }
  arms : ∀ c ∈ s.choices, ∀ a ∈ c.arms, a.channel < 2 ^ 64
  parts : ∀ P, s.Holds P → Q P

/-- A soup that fits, in which every sequence that waits can count its child. -/
def Soup.Steady (T : Instant → Prop) : InstanceSoup → Prop := Soup.Lasting T (Part.Fits T)

/-- The counters of a soup are words. -/
structure Soup.Counted (s : InstanceSoup) : Prop where
  channels : s.nextChannel < 2 ^ 64
  numbers : s.nextMonotonic < 2 ^ 64

instance (s : InstanceSoup) : Decidable s.Counted :=
  decidable_of_iff (s.nextChannel < 2 ^ 64 ∧ s.nextMonotonic < 2 ^ 64)
    ⟨fun h => ⟨h.1, h.2⟩, fun h => ⟨h.channels, h.numbers⟩⟩

/-- The soup of a new instance is steady if the place of the root is a word. -/
theorem Script.steady_newSoup {s : Script} (T : Instant → Prop)
    (hroot : s.definition.root < 2 ^ 32) : Soup.Steady T s.newSoup where
  others :=
    { global := by
        refine ⟨?_, fun _ h => (by cases h)⟩
        intro l hl
        cases hl
        exact ⟨by decide, by decide⟩
      nextChannel := show 3 < 2 ^ 64 by decide
      nextMonotonic := show 2 < 2 ^ 64 by decide
      runnables := fun _ h => nomatch h
      choices := fun _ h => nomatch h
      messages := fun _ h => nomatch h
      closed := fun _ h => nomatch h
      timers := fun _ h => nomatch h }
  arms _ h := nomatch h
  parts P hP := by
    cases P with
    | ready t =>
      rw [List.mem_singleton.1 hP]
      exact ⟨show 1 < 2 ^ 64 by decide, hroot, show 1 < 2 ^ 64 by decide,
        show 2 < 2 ^ 64 by decide⟩
    | waiting r =>
      obtain ⟨_, hc, -⟩ := hP
      cases hc

theorem Script.Fits.steady_newSoup {s : Script} (hs : s.Fits) : s.newSoup.Steady Instant.Valid :=
  Script.steady_newSoup _ hs.definition.root

namespace Soup

variable {T : Instant → Prop} {s : InstanceSoup}

/-- A soup that fits but for its parts fits if its parts do. -/
theorem Lasting.fits_of_forall {Q : Part → Prop} (h : Lasting T Q s)
    (hready : ∀ t, s.Holds (.ready t) → t.Fits T) (hwaiting : ∀ r, s.Holds (.waiting r) → r.Fits) :
    Soup.Fits T s where
  global := h.others.global
  nextChannel := h.others.nextChannel
  nextMonotonic := h.others.nextMonotonic
  runnables := hready
  choices c hc a ha := ⟨h.arms c hc a ha, hwaiting a.handler ⟨c, hc, a, ha, rfl⟩⟩
  messages := h.others.messages
  closed := h.others.closed
  timers := h.others.timers

theorem Lasting.fits (h : Lasting T (Part.Fits T) s) : Soup.Fits T s :=
  h.fits_of_forall (fun t ht => h.parts (.ready t) ht) fun r hr => (h.parts (.waiting r) hr).1

/-- The parts of a soup that fits almost fit. -/
theorem Fits.lasting_almost (h : Soup.Fits T s) : Lasting T (Part.Almost T) s where
  others := { h with
    runnables := fun _ ht => absurd ht List.not_mem_nil
    choices := fun _ hc => absurd hc List.not_mem_nil }
  arms c hc a ha := (h.choices c hc a ha).1
  parts P hP := by
    cases P with
    | ready t => exact Part.almost_of_fits (h.runnables t hP)
    | waiting r =>
      obtain ⟨c, hc, a, ha, rfl⟩ := hP
      exact (h.choices c hc a ha).2

/-- Where nothing is ready to run, a soup fits whose parts almost do. -/
theorem Lasting.fits_of_rest (h : Lasting T (Part.Almost T) s) (hrest : s.runnables = []) :
    Soup.Fits T s := by
  refine h.fits_of_forall (fun t ht => ?_) fun r hr => h.parts (.waiting r) hr
  have ht : t ∈ s.runnables := ht
  rw [hrest] at ht
  cases ht

end Soup

namespace Soup.Lasting

variable {T : Instant → Prop} {Q : Part → Prop} {s : InstanceSoup} (h : Lasting T Q s)

include h

/-- A message that waits fits. -/
theorem message {c : Channel} {m : Message} (hm : m ∈ s.queue c) : m.Fits := by
  unfold queue at hm
  cases hq : s.messages.get? c with
  | none =>
    rw [hq] at hm
    cases hm
  | some ms =>
    rw [hq] at hm
    exact (h.others.messages _ (Table.mem_of_find hq)).2 m hm

/-! ### Changes of a soup -/

/-- One queue may be filled with fitting messages. -/
theorem insert_queue {c : Channel} {ms : List Message} (hc : c < 2 ^ 64) (hms : ∀ m ∈ ms, m.Fits)
    {e : Channel × List Message} (he : e ∈ (s.messages.insert c ms).entries) :
    e.1 < 2 ^ 64 ∧ ∀ m ∈ e.2, m.Fits := by
  rcases Table.mem_place he with rfl | he
  · exact ⟨hc, hms⟩
  · exact h.others.messages e he

theorem send {c : Channel} {m : Message} (hc : c < 2 ^ 64) (hm : m.Fits) :
    Lasting T Q (s.send c m) := by
  unfold Soup.send
  split
  · exact h
  · refine { h with others := { h.others with messages := ?_, timers := fun e he => ?_ } }
    · intro e he
      refine h.insert_queue hc ?_ he
      intro m' hm'
      rcases List.mem_append.1 hm' with hm' | hm'
      · exact h.message hm'
      · rw [List.mem_singleton.1 hm']
        exact hm
    · exact h.others.timers e (Table.mem_of_mem_drop he)

theorem sendEach {ms : List (Channel × Message)} (hms : ∀ e ∈ ms, e.1 < 2 ^ 64 ∧ e.2.Fits) :
    Lasting T Q (s.sendEach ms) := by
  induction ms generalizing s with
  | nil => exact h
  | cons e ms ih =>
    obtain ⟨hc, hm⟩ := hms e List.mem_cons_self
    exact ih (h.send hc hm) fun e' he' => hms e' (List.mem_cons_of_mem _ he')

theorem close {c : Channel} (hc : c < 2 ^ 64) : Lasting T Q (s.close c) := by
  refine { h with others := { h.others with messages := ?_, closed := fun d hd => ?_ } }
  · intro e he
    exact h.others.messages e (Table.mem_of_mem_drop he)
  · obtain ⟨e, he, rfl⟩ := List.mem_map.1 hd
    rcases Table.mem_place he with rfl | he
    · exact hc
    · exact h.others.closed e.1 (List.mem_map_of_mem he)

theorem closeEach {cs : List Channel} (hcs : ∀ c ∈ cs, c < 2 ^ 64) :
    Lasting T Q (s.closeEach cs) := by
  induction cs generalizing s with
  | nil => exact h
  | cons c cs ih =>
    exact ih (h.close (hcs c List.mem_cons_self)) fun d hd => hcs d (List.mem_cons_of_mem _ hd)

theorem cancelTimer (c : Channel) : Lasting T Q (s.cancelTimer c) := by
  unfold Soup.cancelTimer
  split
  · refine { h with others := { h.others with timers := fun e he => ?_ } }
    exact h.others.timers e (Table.mem_of_mem_drop he)
  · exact h

theorem registerTimer {c : Channel} {t : Instant} (hc : c < 2 ^ 64) (ht : T t) :
    Lasting T Q (s.registerTimer c t) := by
  refine { h with others := { h.others with timers := fun e he => ?_ } }
  rcases Table.mem_place he with rfl | he
  · exact ⟨hc, ht⟩
  · exact h.others.timers e he

theorem drainEffects : Lasting T Q s.drainEffects.2 := { h with others := { h.others with } }

theorem takeMessages (c : Channel) : Lasting T Q (s.takeMessages c).2 := by
  refine { h with others := { h.others with messages := ?_ } }
  intro e he
  exact h.others.messages e (Table.mem_of_mem_drop he)

/-- Parts with the property may join, if they fit enough to listen on words. -/
theorem populate {p : Products} (hp : p.Keeps T Q) (hQ : ∀ r, Q (.waiting r) → r.Fits) :
    Lasting T Q (p.populate s) := by
  -- every arm of a new choice has the receiver that the choice is made from
  have harm {a : Arm Receiver} {c : Choice Receiver} (hc : c ∈ p.receivers.map Receiver.choice)
      (ha : a ∈ c.arms) : a.channel ∈ a.handler.channels ∧ Q (.waiting a.handler) := by
    obtain ⟨r, hr, rfl⟩ := List.mem_map.1 hc
    obtain ⟨hchannel, rfl⟩ := Receiver.mem_arms_choice.1 ha
    exact ⟨hchannel, hp.heir _ (Products.mem_receivers.1 hr)⟩
  rw [Products.populate_eq]
  refine { others := { h.others with }, arms := fun c hc a ha => ?_, parts := fun P hP => ?_ }
  · rcases List.mem_append.1 hc with hc | hc
    · exact h.arms c hc a ha
    · obtain ⟨hchannel, hhandler⟩ := harm hc ha
      exact Receiver.fits_channels (hQ _ hhandler) hchannel
  · cases P with
    | ready t =>
      rcases List.mem_append.1 hP with ht | ht
      · exact h.parts (.ready t) ht
      · exact (Products.mem_tasks.1 ht).elim (hp.kids t) (hp.heir (.ready t))
    | waiting r =>
      obtain ⟨c, hc, a, ha, rfl⟩ := hP
      rcases List.mem_append.1 hc with hc | hc
      · exact h.parts _ ⟨c, hc, a, ha, rfl⟩
      · exact (harm hc ha).2

/-- Products with the property may be added, as long as the counters stay words. -/
theorem addTo {p : Products} (hp : p.Keeps T Q) (hQ : ∀ r, Q (.waiting r) → r.Fits)
    (hn : s.nextChannel + p.channels < 2 ^ 64) (hk : s.nextMonotonic + p.numbers < 2 ^ 64) :
    Lasting T Q (p.addTo s) := by
  have hnames : Lasting T Q (p.takeNames s) :=
    { h with others := { h.others with nextChannel := hn, nextMonotonic := hk } }
  have hdisarmed : Lasting T Q (p.disarm (p.takeNames s)) := by
    unfold Products.disarm
    cases p.cancelled with
    | none => exact hnames
    | some c => exact hnames.cancelTimer c
  have hclosed := hdisarmed.closeEach hp.closed
  have harmed : Lasting T Q (p.arm ((p.disarm (p.takeNames s)).closeEach p.closed)) := by
    unfold Products.arm
    cases he : p.armed with
    | none => exact hclosed
    | some e =>
      obtain ⟨hc, ht⟩ := hp.armed e he
      exact hclosed.registerTimer hc ht
  exact (harmed.sendEach hp.sent).populate hp hQ

/-! ### What is picked -/

theorem takeRunnable {t : Task} {rest : InstanceSoup} (ht : s.takeRunnable? = some (t, rest)) :
    Q (.ready t) ∧ Lasting T Q rest := by
  unfold takeRunnable? at ht
  split at ht
  · cases ht
  · next u us hr =>
    cases ht
    have hready (v : Task) (hv : v ∈ t :: us) : Q (.ready v) := by
      refine h.parts (.ready v) ?_
      show v ∈ s.runnables
      rwa [hr]
    refine ⟨hready t List.mem_cons_self, { h with others := { h.others with }, parts := ?_ }⟩
    intro P hP
    cases P with
    | ready v => exact hready v (List.mem_cons_of_mem _ hP)
    | waiting r => exact h.parts _ hP

theorem takeMatch {a : Arm Receiver} {m : Message} {rest : InstanceSoup}
    (hm : s.takeMatch? = some (a, m, rest)) :
    Q (.waiting a.handler) ∧ m.Fits ∧ Lasting T Q rest := by
  obtain ⟨pre, c, post, hcs, ha, hframe⟩ := exists_of_takeMatch? hm
  obtain ⟨left, hq, hmessages⟩ := messages_of_takeMatch? hm
  have hc : c ∈ s.choices := by
    rw [hcs]
    exact List.mem_append_right _ List.mem_cons_self
  have hsub (d : Choice Receiver) (hd : d ∈ pre ++ post) : d ∈ s.choices := by
    rw [hcs]
    exact (List.mem_append.1 hd).elim (List.mem_append_left _)
      fun hd => List.mem_append_right _ (List.mem_cons_of_mem _ hd)
  have hall (m' : Message) (hm' : m' ∈ m :: left) : m'.Fits := h.message (hq ▸ hm')
  refine ⟨h.parts _ ⟨c, hc, a, ha, rfl⟩, hall m List.mem_cons_self, ?_⟩
  -- what stays behind was there before: fewer choices, and a queue without its first message
  rw [hframe, hmessages]
  refine { others := { h.others with messages := fun e he => ?_ }
           arms := fun d hd => h.arms d (hsub d hd)
           parts := fun P hP => ?_ }
  · have he : e ∈ (s.withoutOldest a.channel left).entries := he
    unfold withoutOldest at he
    split at he
    · exact h.others.messages e (Table.mem_of_mem_drop he)
    · refine h.insert_queue (h.arms c hc a ha) ?_ he
      intro m' hm'
      exact hall m' (List.mem_cons_of_mem _ hm')
  · cases P with
    | ready t => exact h.parts (.ready t) hP
    | waiting r =>
      obtain ⟨d, hd, hr⟩ := hP
      exact h.parts _ ⟨d, hsub d hd, hr⟩

/-- What is picked has the property, the message that it takes fits, and what is left is lasting. -/
theorem pick {P : Part} {taken : Option (Channel × Message)} {rest : InstanceSoup}
    (hp : s.pick? = some (P, taken, rest)) :
    Q P ∧ (∀ {c m}, taken = some (c, m) → m.Fits) ∧ Lasting T Q rest := by
  unfold pick? at hp
  split at hp
  · next ht =>
    cases hp
    obtain ⟨hpart, hrest⟩ := h.takeRunnable ht
    exact ⟨hpart, fun he => (by cases he), hrest⟩
  · obtain ⟨⟨a, m, rest'⟩, hm, he⟩ := Option.map_eq_some_iff.1 hp
    cases he
    obtain ⟨hpart, hmessage, hrest⟩ := h.takeMatch hm
    refine ⟨hpart, ?_, hrest⟩
    intro c m' he
    cases he
    exact hmessage

end Soup.Lasting

/-! ### Reductions -/

namespace Script

variable {s : Script} {now : Instant}

/-- The counters of channels and numbers never go back. -/
theorem counters_le_after {soup : InstanceSoup} {r : Reduction}
    (hr : s.reduction? now soup = .ok (some r)) :
    soup.nextChannel ≤ r.after.nextChannel ∧ soup.nextMonotonic ≤ r.after.nextMonotonic := by
  obtain ⟨hp, p, -, ha⟩ := exists_products hr
  obtain ⟨-, hframe⟩ := Soup.takes_of_pick? hp
  rw [ha, Products.nextChannel_addTo, Products.nextMonotonic_addTo, hframe]
  exact ⟨Nat.le_add_right _ _, Nat.le_add_right _ _⟩

/-- Reductions never take the counters back. -/
theorem counters_le_reduces {clock : Nat → Instant} {n : Nat} {soup t : InstanceSoup}
    (h : s.program.Reduces clock soup n t) :
    soup.nextChannel ≤ t.nextChannel ∧ soup.nextMonotonic ≤ t.nextMonotonic := by
  induction h with
  | refl => exact ⟨Nat.le_refl _, Nat.le_refl _⟩
  | step _ hs ih =>
    obtain ⟨r, hr, rfl⟩ := exists_of_step? hs
    have hstep := counters_le_after hr
    exact ⟨ih.1.trans hstep.1, ih.2.trans hstep.2⟩

/-- The course after some reductions is where as many reductions lead, or fewer. -/
theorem exists_reduces_advance (n : Nat) (c : Course) :
    ∃ k, s.program.Reduces (fun _ => now) c.soup k (s.advance now n c).soup := by
  induction n generalizing c with
  | zero => exact ⟨0, .refl⟩
  | succ n ih =>
    unfold advance
    split
    · next r hr =>
      obtain ⟨k, hk⟩ := ih (c.extend r)
      have hfirst : s.program.step? now c.soup = .ok (some r.after) := by
        rw [step?_eq, hr]
        rfl
      exact ⟨1 + k, Program.Reduces.trans (.step .refl hfirst) hk⟩
    · exact ⟨0, .refl⟩

/-- At one instant, an execution comes to rest where reductions lead. -/
theorem reduces_of_execute {limit : Nat} {soup : InstanceSoup}
    {o : Outcome Shared Task Receiver Message} (ho : s.program.execute now limit soup = .ok o) :
    s.program.Reduces (fun _ => now) soup o.reductions o.soup := by
  rw [Program.execute_eq] at ho
  exact (Program.reduces_of_outcome ho).1

/-- Nothing is ready to run where an execution comes to rest. -/
theorem runnables_of_outcome {clock : Nat → Instant} {limit : Nat} {soup : InstanceSoup}
    {o : Outcome Shared Task Receiver Message}
    (ho : (s.program.executeBy clock limit soup).outcome = .ok o) : o.soup.runnables = [] := by
  have hwork := (Program.reduces_of_outcome ho).2
  rw [Soup.hasWork, Bool.or_eq_false_iff, Bool.not_eq_false', List.isEmpty_iff] at hwork
  exact hwork.1

/-- A property of parts is passed on: what has it yields what has it, as long as the counters stay
words. -/
structure Passes (s : Script) (now : Instant) (T : Instant → Prop) (Q : Part → Prop) : Prop where
  receiver : ∀ r, Q (.waiting r) → r.Fits
  yields : ∀ {n k P taken p}, Yields s now n k P taken p → Q P →
    (∀ {c m}, taken = some (c, m) → m.Fits) → n + p.channels ≤ 2 ^ 64 → k + p.numbers ≤ 2 ^ 64 →
    p.Keeps T Q

namespace Passes

variable {T : Instant → Prop} {Q : Part → Prop}

/-- A reduction keeps a soup lasting, as long as its counters stay words. -/
theorem lasting_after (hQ : s.Passes now T Q) {soup : InstanceSoup} {r : Reduction}
    (h : Soup.Lasting T Q soup) (hr : s.reduction? now soup = .ok (some r))
    (hw : r.after.Counted) : Soup.Lasting T Q r.after := by
  obtain ⟨hp, p, hy, ha⟩ := exists_products hr
  obtain ⟨hpart, htaken, hrest⟩ := h.pick hp
  obtain ⟨-, hframe⟩ := Soup.takes_of_pick? hp
  have hchannel : r.before.nextChannel = soup.nextChannel := by rw [hframe]
  have hnumber : r.before.nextMonotonic = soup.nextMonotonic := by rw [hframe]
  obtain ⟨hn, hk⟩ := hw
  rw [ha, Products.nextChannel_addTo] at hn
  rw [ha, Products.nextMonotonic_addTo] at hk
  have hproducts : p.Keeps T Q :=
    hQ.yields hy hpart htaken (hchannel ▸ hn.le) (hnumber ▸ hk.le)
  rw [ha]
  exact hrest.addTo hproducts hQ.receiver hn hk

/-- Reductions keep a soup lasting, as long as its counters stay words. -/
theorem lasting_reduces {clock : Nat → Instant} (hQ : ∀ i, s.Passes (clock i) T Q) {n : Nat}
    {soup t : InstanceSoup} (h : Soup.Lasting T Q soup) (ht : s.program.Reduces clock soup n t)
    (hw : t.Counted) : Soup.Lasting T Q t := by
  induction ht with
  | refl => exact h
  | step _ hs ih =>
    obtain ⟨r, hr, rfl⟩ := exists_of_step? hs
    -- counters that never go back are words before, because they are afterwards
    have hle := counters_le_after hr
    have hbefore := ih ⟨Nat.lt_of_le_of_lt hle.1 hw.1, Nat.lt_of_le_of_lt hle.2 hw.2⟩
    exact (hQ _).lasting_after hbefore hr hw

end Passes

namespace FitsOver

variable {T : Instant → Prop} (hs : s.FitsOver T)

include hs

/-- It is passed on to fit. -/
theorem passes_fits (hnow : T now) : s.Passes now T (Part.Fits T) where
  receiver _ hr := hr.1
  yields hy hP htaken hn hk := hy.keeps_fits hs hP htaken hnow hn hk

/-- It is passed on almost to fit. -/
theorem passes_almost (hnow : T now) : s.Passes now T (Part.Almost T) where
  receiver _ hr := hr
  yields hy hP htaken hn hk := hy.keeps_almost hs hP htaken hnow hn hk

/-- Reductions keep a soup steady, as long as its counters stay words. -/
theorem steady_reduces {clock : Nat → Instant} (hclock : ∀ i, T (clock i)) {n : Nat}
    {soup t : InstanceSoup} (h : soup.Steady T) (ht : s.program.Reduces clock soup n t)
    (hw : t.Counted) : t.Steady T :=
  Passes.lasting_reduces (fun i => hs.passes_fits (hclock i)) h ht hw

/-- An execution keeps a soup steady, as long as its counters stay words. -/
theorem steady_of_execute (hnow : T now) {limit : Nat} {soup : InstanceSoup}
    {o : Outcome Shared Task Receiver Message} (h : soup.Steady T)
    (ho : s.program.execute now limit soup = .ok o) (hw : o.soup.Counted) : o.soup.Steady T :=
  hs.steady_reduces (fun _ => hnow) h (reduces_of_execute ho) hw

end FitsOver

end Script

end Perdure
