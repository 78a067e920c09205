import Perdure.Proofs.Instance.Pick
import Perdure.Proofs.Machine.Iteration

/-!
# What runs do not look at

No part of an instance looks at its outstanding requests, or changes them, and none looks at the time
of a timer that is armed: timers are armed, disarmed and looked for by their channels.  So two soups
that differ in nothing else do the same, and what they come to differs in nothing else.

## Main definitions

* `Soup.withRequests` — a soup with other outstanding requests.
* `Soup.blurred` — a soup without its requests, and with the times of its timers blurred.

## Main results

* `Products.blurred_addTo` — what a part yields is added to both soups alike.
* `Script.step?_blurred`, `Script.executeBy_blurred` — reductions and executions of both soups are
  alike.
* `Script.global_executeBy` — an execution leaves the shared data.
* `Script.executeBy_withRequests` — an execution with other requests.
-/

namespace Perdure

/-- A soup with other outstanding requests. -/
def Soup.withRequests (s : InstanceSoup) (requests : RequestState) : InstanceSoup :=
  { s with global := { s.global with requests } }

/-- The requests are those that a soup is given. -/
theorem Soup.withRequests_self (s : InstanceSoup) : s.withRequests s.global.requests = s := rfl

theorem Soup.send_withRequests (s : InstanceSoup) (requests : RequestState) (c : Channel)
    (m : Message) : (s.withRequests requests).send c m = (s.send c m).withRequests requests := by
  have hclosed : (s.withRequests requests).isClosed c = s.isClosed c := rfl
  unfold send
  rw [hclosed]
  split <;> rfl

/-- A soup without its requests, in which only so much is left of the times of its timers. -/
def Soup.blurred (k : Instant → Instant) (s : InstanceSoup) : InstanceSoup :=
  { s with
    global := { s.global with requests := .list [] }
    timers := s.timers.mapValues k }

variable (k : Instant → Instant) (s : InstanceSoup)

/-! ### Changes of a soup -/

namespace Soup

theorem blurred_send (c : Channel) (m : Message) :
    (s.send c m).blurred k = (s.blurred k).send c m := by
  have hclosed : (s.blurred k).isClosed c = s.isClosed c := rfl
  unfold send
  rw [hclosed]
  split
  · rfl
  · simp only [blurred, Table.mapValues_erase]
    rfl

theorem blurred_sendEach (ms : List (Channel × Message)) :
    (s.sendEach ms).blurred k = (s.blurred k).sendEach ms := by
  unfold sendEach
  induction ms generalizing s with
  | nil => rfl
  | cons e ms ih => rw [List.foldl_cons, ih, blurred_send, List.foldl_cons]

theorem blurred_closeEach (cs : List Channel) :
    (s.closeEach cs).blurred k = (s.blurred k).closeEach cs := by
  unfold closeEach
  induction cs generalizing s with
  | nil => rfl
  | cons c cs ih => exact ih (s.close c)

theorem blurred_cancelTimer (c : Channel) :
    (s.cancelTimer c).blurred k = (s.blurred k).cancelTimer c := by
  have harmed : (s.blurred k).timers.contains c = s.timers.contains c :=
    Table.contains_mapValues k s.timers c
  unfold cancelTimer
  rw [harmed]
  split
  · simp only [blurred, Table.mapValues_erase]
  · rfl

theorem firstReady?_blurred (cs : List (Choice Receiver)) :
    (s.blurred k).firstReady? cs = s.firstReady? cs := by
  induction cs with
  | nil => rfl
  | cons c rest ih =>
    rw [firstReady?, firstReady?, ih]
    rfl

theorem takeRunnable?_blurred : (s.blurred k).takeRunnable? =
    s.takeRunnable?.map fun found => (found.1, found.2.blurred k) := by
  obtain ⟨global, nextChannel, nextMonotonic, runnables⟩ := s
  cases runnables <;> rfl

theorem takeMatch?_blurred : (s.blurred k).takeMatch? = s.takeMatch?.map
    fun found => (found.1, found.2.1, found.2.2.blurred k) := by
  have hchoices : (s.blurred k).choices = s.choices := rfl
  have hqueue (c : Channel) : (s.blurred k).queue c = s.queue c := rfl
  rw [takeMatch?_eq, takeMatch?_eq]
  simp only [hchoices, firstReady?_blurred, hqueue]
  cases s.firstReady? s.choices with
  | none => rfl
  | some found =>
    dsimp only
    cases s.queue found.1.channel <;> rfl

/-- The same part is picked, with the same message. -/
theorem pick?_blurred : (s.blurred k).pick? =
    s.pick?.map fun found => (found.1, found.2.1, found.2.2.blurred k) := by
  unfold pick?
  rw [takeRunnable?_blurred, takeMatch?_blurred]
  cases s.takeRunnable? with
  | some found => rfl
  | none => cases s.takeMatch? <;> rfl

/-- Soups that differ in their requests only. -/
theorem eq_withRequests_of_blurred {s t : InstanceSoup} (h : s.blurred id = t.blurred id) :
    s = t.withRequests s.global.requests := by
  have hsame (u : InstanceSoup) : u.blurred id = u.withRequests (.list []) := by
    unfold blurred withRequests
    rw [Table.mapValues_id]
  rw [hsame, hsame] at h
  exact congrArg (·.withRequests s.global.requests) h

end Soup

/-! ### Products -/

/-- What a part yields is added alike to soups that are alike. -/
theorem Products.blurred_addTo (p : Products) {s t : InstanceSoup} (h : s.blurred k = t.blurred k) :
    (p.addTo s).blurred k = (p.addTo t).blurred k := by
  have hdisarm (s : InstanceSoup) : (p.disarm s).blurred k = p.disarm (s.blurred k) := by
    unfold disarm
    cases p.cancelled with
    | none => rfl
    | some c => exact s.blurred_cancelTimer k c
  -- a timer that is armed is armed at the same time in both
  have harm {s t : InstanceSoup} (h : s.blurred k = t.blurred k) :
      (p.arm s).blurred k = (p.arm t).blurred k := by
    have hregister (s : InstanceSoup) (c : Channel) (u : Instant) : (s.registerTimer c u).blurred k =
        { s.blurred k with
          timers := (s.blurred k).timers.insert c (k u)
          outbox := (s.blurred k).outbox ++ [.registerTimer c u] } := by
      simp only [Soup.registerTimer, Soup.blurred, Table.mapValues_insert]
    unfold arm
    cases p.armed with
    | none => exact h
    | some e =>
      show (s.registerTimer e.1 e.2).blurred k = (t.registerTimer e.1 e.2).blurred k
      rw [hregister, hregister, h]
  have hnames (s : InstanceSoup) : (p.takeNames s).blurred k = p.takeNames (s.blurred k) := rfl
  have hpopulate (s : InstanceSoup) : (p.populate s).blurred k = p.populate (s.blurred k) := by
    rw [populate_eq, populate_eq]
    rfl
  rw [addTo, addTo, hpopulate, hpopulate, Soup.blurred_sendEach, Soup.blurred_sendEach, harm]
  rw [Soup.blurred_closeEach, Soup.blurred_closeEach, hdisarm, hdisarm, hnames, hnames, h]

/-! ### Runs -/

namespace Script

variable (script : Script)

/-- Reductions of soups that are alike are alike. -/
theorem step?_blurred (now : Instant) {s t : InstanceSoup} (h : s.blurred k = t.blurred k) :
    Program.Alike (fun u v => u.blurred k = v.blurred k) (script.program.step? now s)
      (script.program.step? now t) := by
  have hpicks := congrArg Soup.pick? h
  rw [Soup.pick?_blurred, Soup.pick?_blurred] at hpicks
  rw [step?_eq, step?_eq]
  unfold reduction?
  cases hs : s.pick? with
  | none =>
    cases ht : t.pick? with
    | none => exact .stuck
    | some found => rw [hs, ht] at hpicks; cases hpicks
  | some found =>
    obtain ⟨P, taken, rest⟩ := found
    obtain ⟨htakes, -⟩ := Soup.takes_of_pick? hs
    cases ht : t.pick? with
    | none => rw [hs, ht] at hpicks; cases hpicks
    | some found =>
      obtain ⟨P', taken', rest'⟩ := found
      rw [hs, ht] at hpicks
      obtain ⟨rfl, hpicks⟩ := Prod.mk.inj (Option.some.inj hpicks)
      obtain ⟨rfl, hrest⟩ := Prod.mk.inj hpicks
      have hchannel : rest'.nextChannel = rest.nextChannel :=
        (congrArg Soup.nextChannel hrest).symm
      have hnumber : rest'.nextMonotonic = rest.nextMonotonic :=
        (congrArg Soup.nextMonotonic hrest).symm
      dsimp only
      rcases Part.yields_or_fails script now rest.nextChannel rest.nextMonotonic htakes with
        ⟨p, hy⟩ | ⟨e, he⟩
      · have hone : (script.react now P taken).run rest = .ok ((), p.addTo rest) :=
          hy.react_eq rfl rfl
        have hother : (script.react now P taken).run rest' = .ok ((), p.addTo rest') :=
          hy.react_eq hchannel hnumber
        rw [hone, hother]
        exact .reduced (p.blurred_addTo k hrest)
      · rw [he.react_eq, he.react_eq]
        exact .failed e

/-- Executions of soups that are alike are alike. -/
theorem executeBy_blurred (clock : Nat → Instant) (limit : Nat) {s t : InstanceSoup}
    (h : s.blurred k = t.blurred k) :
    (script.program.executeBy clock limit s).soup.blurred k =
      (script.program.executeBy clock limit t).soup.blurred k ∧
    (script.program.executeBy clock limit s).reductions =
      (script.program.executeBy clock limit t).reductions ∧
    (script.program.executeBy clock limit s).failure =
      (script.program.executeBy clock limit t).failure :=
  Program.executeBy_alike (fun now _ _ => script.step?_blurred k now) clock limit h

/-- Reductions leave the shared data. -/
theorem global_reduces {clock : Nat → Instant} {n : Nat} {s t : InstanceSoup}
    (h : script.program.Reduces clock s n t) : t.global = s.global := by
  induction h with
  | refl => rfl
  | @step n t u _ hs ih =>
    obtain ⟨r, hr, rfl⟩ := exists_of_step? hs
    obtain ⟨hp, p, -, ha⟩ := exists_products hr
    obtain ⟨-, hframe⟩ := Soup.takes_of_pick? hp
    rw [ha, Products.global_addTo, hframe]
    exact ih

/-- An execution leaves the shared data. -/
theorem global_executeBy (clock : Nat → Instant) (limit : Nat) (s : InstanceSoup) :
    (script.program.executeBy clock limit s).soup.global = s.global := by
  have hends := script.program.ends_executeBy clock limit s
  generalize script.program.executeBy clock limit s = trail at hends
  cases hends with
  | rested h | failed h | exceeded h => exact script.global_reduces h

/-- An execution is the same with other requests. -/
theorem executeBy_withRequests (clock : Nat → Instant) (limit : Nat) (s : InstanceSoup)
    (requests : RequestState) :
    script.program.executeBy clock limit (s.withRequests requests) =
      let trail := script.program.executeBy clock limit s
      { trail with soup := trail.soup.withRequests requests } := by
  have hblurred : (s.withRequests requests).blurred id = s.blurred id := rfl
  obtain ⟨hsoup, hreductions, hfailure⟩ :=
    script.executeBy_blurred id clock limit hblurred
  have hglobal := script.global_executeBy clock limit (s.withRequests requests)
  have hother := Soup.eq_withRequests_of_blurred hsoup
  rw [hglobal] at hother
  exact Program.Trail.ext hother hreductions hfailure

end Script

end Perdure
