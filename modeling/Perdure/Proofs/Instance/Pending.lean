import Mathlib.Logic.Function.Basic
import Perdure.Proofs.Instance.Pick

/-!
# Timers that are pending outside

An instance keeps its armed timers in its soup, and whoever runs it keeps the timers that it has
asked for outside.  The two are separate: the outside hears of a timer only through the effects,
and these only after the instance has come to rest, while a message disarms the timer of its channel
without any effect.  What is pending outside once the effects of a soup are handed over is compared
here with what the soup has armed.

## Main definitions

* `Pending` — the pending timers of an instance, with their deadlines.
* `Pending.after` — the pending timers after some effects.
* `Pending.Covers` — every open armed timer of a soup is pending once its effects are handed over.
* `Pending.Within` — nothing else is pending then than the armed timers of the soup.

## Main results

* `Products.after_outbox_addTo` — what a reaction makes of the pending timers.
* `Script.keeps_of_execute` — an execution keeps what each of its reductions keeps.
* `Pending.Covers.after_of_reduction` — a reduction keeps armed timers pending.
-/

namespace Perdure

/-- The pending timers of an instance: the deadline of each channel that has one. -/
abbrev Pending := Channel → Option Instant

/-- The pending timers with one of them set to a deadline, or taken out. -/
def Pending.set (w : Pending) (c : Channel) (deadline : Option Instant) : Pending :=
  Function.update w c deadline

theorem Pending.set_apply (w : Pending) (c q : Channel) (deadline : Option Instant) :
    w.set c deadline q = if q = c then deadline else w q := Function.update_apply w c deadline q

/-- The pending timers after an effect. -/
def Effect.onPending (w : Pending) : Effect → Pending
  | .registerTimer c d => w.set c (some d)
  | .cancelTimer c => w.set c none

namespace Pending

/-- The pending timers after some effects. -/
def after (w : Pending) (effects : List Effect) : Pending := effects.foldl Effect.onPending w

@[simp] theorem after_nil (w : Pending) : w.after [] = w := rfl

theorem after_append (w : Pending) (effects more : List Effect) :
    w.after (effects ++ more) = (w.after effects).after more := List.foldl_append

/-- Cancelled timers are not pending, and all others stay as they are. -/
theorem after_cancelTimer (w : Pending) (cs : List Channel) (q : Channel) :
    w.after (cs.map .cancelTimer) q = if q ∈ cs then none else w q := by
  induction cs generalizing w with
  | nil => simp
  | cons c cs ih =>
    show (w.set c none).after (cs.map .cancelTimer) q = _
    rw [ih, set_apply]
    by_cases hq : q = c <;> simp [hq]

/-- Every open armed timer of a soup is pending once its effects are handed over. -/
def Covers (w : Pending) (s : InstanceSoup) : Prop :=
  ∀ t d, s.timers.get? t = some d → s.isClosed t = false → w.after s.outbox t = some d

/-- Nothing but the armed timers of a soup is pending once its effects are handed over. -/
def Within (w : Pending) (s : InstanceSoup) : Prop :=
  ∀ t d, w.after s.outbox t = some d → s.timers.get? t = some d

end Pending

/-! ### Reactions -/

/-- A reaction changes the pending timers as it changes the armed ones, but for its messages. -/
theorem Products.after_outbox_addTo (p : Products) (s : InstanceSoup) (w : Pending) (q : Channel) :
    w.after (p.addTo s).outbox q = match p.armed with
      | some (c, d) => if q = c then some d
        else if p.cancelled = some q ∧ s.timers.contains q then none else w.after s.outbox q
      | none => if p.cancelled = some q ∧ s.timers.contains q then none
        else w.after s.outbox q := by
  have hdisarmed : (w.after s.outbox).after (p.cancelled.elim [] s.cancellation) q =
      if p.cancelled = some q ∧ s.timers.contains q then none else w.after s.outbox q := by
    cases p.cancelled with
    | none => simp
    | some c =>
      by_cases hc : s.timers.contains c
      · have heffects : s.cancellation c = [c].map Effect.cancelTimer := if_pos hc
        show (w.after s.outbox).after (s.cancellation c) q = _
        rw [heffects, Pending.after_cancelTimer]
        by_cases hq : q = c
        · subst hq
          simp [hc]
        · simp [hq, Ne.symm hq]
      · have heffects : s.cancellation c = [] := if_neg hc
        show (w.after s.outbox).after (s.cancellation c) q = _
        rw [heffects, Pending.after_nil, if_neg]
        rintro ⟨he, hq⟩
        cases he
        exact hc hq
  rw [Products.outbox_addTo, Pending.after_append, Pending.after_append]
  cases p.armed with
  | none => exact hdisarmed
  | some t =>
    obtain ⟨c, d⟩ := t
    show Pending.set _ c (some d) q = _
    rw [Pending.set_apply, hdisarmed]

/-! ### Executions -/

namespace Script

variable {s : Script} {now : Instant} {P : InstanceSoup → Prop}

/-- So many reductions keep what each of them keeps. -/
theorem keeps_of_advance
    (hstep : ∀ soup r, P soup → s.reduction? now soup = .ok (some r) → P r.after) (n : Nat)
    {c : Course} (h : P c.soup) : P (s.advance now n c).soup := by
  induction n generalizing c with
  | zero => exact h
  | succ n ih =>
    unfold advance
    split
    · next r hr => exact ih (c := c.extend r) (hstep c.soup r h hr)
    · exact h

/-- An execution keeps what each of its reductions keeps. -/
theorem keeps_of_execute
    (hstep : ∀ soup r, P soup → s.reduction? now soup = .ok (some r) → P r.after) {limit : Nat}
    {soup : InstanceSoup} (h : P soup) {o : Outcome Shared Task Receiver Message}
    (ho : s.program.execute now limit soup = .ok o) : P o.soup := by
  obtain ⟨-, -, hsoup⟩ := (execute_eq_ok_iff (c := { soup })).1 ho
  rw [hsoup]
  exact keeps_of_advance hstep o.reductions h

end Script

/-! ### Armed timers stay pending -/

namespace Pending.Covers

variable {s : Script} {now : Instant} {w : Pending} {soup : InstanceSoup}

/-- A reduction keeps armed timers pending. -/
theorem after_of_reduction (h : w.Covers soup) {r : Reduction}
    (hr : s.reduction? now soup = .ok (some r)) : w.Covers r.after := by
  obtain ⟨hp, p, -, ha⟩ := Script.exists_products hr
  obtain ⟨-, hframe⟩ := Soup.takes_of_pick? hp
  have hbefore : w.Covers r.before := by
    intro t d hd hopen
    rw [hframe] at hd hopen ⊢
    exact h t d hd hopen
  intro t d hd hopen
  rw [ha] at hd hopen ⊢
  rw [Products.isClosed_addTo, Bool.or_eq_false_iff] at hopen
  have hkept (hd : (p.disarm r.before).timers.get? t = some d) :
      (if p.cancelled = some t ∧ r.before.timers.contains t then none
        else w.after r.before.outbox t) = some d := by
    rw [Products.get?_timers_disarm] at hd
    split at hd
    · cases hd
    · next hne =>
      rw [if_neg fun hc => hne hc.1]
      exact hbefore t d hd hopen.2
  rw [Products.get?_timers_addTo] at hd
  split at hd
  · cases hd
  rw [Products.after_outbox_addTo]
  cases harmed : p.armed with
  | none =>
    rw [harmed] at hd
    exact hkept hd
  | some a =>
    obtain ⟨c, d'⟩ := a
    rw [harmed] at hd
    dsimp only at hd ⊢
    split at hd
    · next hc => rw [if_pos hc, hd]
    · next hc =>
      rw [if_neg hc]
      exact hkept hd

/-- An execution keeps armed timers pending. -/
theorem of_execute (h : w.Covers soup) {limit : Nat} {o : Outcome Shared Task Receiver Message}
    (ho : s.program.execute now limit soup = .ok o) : w.Covers o.soup :=
  Script.keeps_of_execute (fun _ _ h hr => h.after_of_reduction hr) h ho

/-- A message arms no timer and opens no channel. -/
theorem send (h : w.Covers soup) (c : Channel) (m : Message) : w.Covers (soup.send c m) := by
  intro t d hd hopen
  rw [Soup.get?_timers_send] at hd
  rw [Soup.isClosed_send] at hopen
  rw [Soup.outbox_send]
  split at hd
  · cases hd
  · exact h t d hd hopen

/-- A timer that goes off is not pending any more, and its message disarms it. -/
theorem send_timeout (h : w.Covers soup) (hnone : soup.outbox = []) (c : Channel) :
    (w.set c none).Covers (soup.send c .timeout) := by
  intro t d hd hopen
  rw [Soup.get?_timers_send] at hd
  rw [Soup.isClosed_send] at hopen
  split at hd
  · cases hd
  · next hne =>
    have hw := h t d hd hopen
    rw [hnone, Pending.after_nil] at hw
    rw [Soup.outbox_send, hnone, Pending.after_nil, set_apply, if_neg, hw]
    rintro rfl
    exact hne ⟨rfl, hopen⟩

end Pending.Covers

end Perdure
