import Perdure.Proofs.Instance.Completion
import Perdure.Proofs.Instance.Oblivious
import Perdure.Proofs.Instance.Steady

/-!
# Histories with and without restarts

An instance goes through rounds: the clock is set, messages are put in, it is reduced until nothing
is left to do, and its effects may be handed over.  Between two rounds it is kept in memory, or it
is stored whenever its effects were handed over and read back for the next round.  Nobody can tell
which: the reports of all rounds are the same, the stored bytes and the error at the end included.

What is read back need not be what was stored.  The time of a timer may be a leap second that does
not end a minute, which is read back as the second after it.  But no part of an instance looks at
the time of a timer that is armed, and both have the same written form.

## Main definitions

* `Round`, `Round.Report`, `Breakdown` — a round, what it comes to, and why it fails.
* `Script.round`, `Script.play` — a round and a history, for any way of keeping the instance.
* `Checkpoint.restore` — keeping an instance by storing it and reading it back.
* `Soup.Alike` — two soups that differ in the times of their timers only, which are shown alike.

## Main results

* `Script.round_restore` — a round does not depend on how the instance was kept.
* `Script.play_restore` — no history of an instance depends on how it is kept.
-/

namespace Perdure

/-- A round: the clock is set, messages are put in, and the instance is reduced. -/
structure Round where
  now : Instant
  messages : List (Channel × Message) := []
  /-- Are the effects handed over after the round? -/
  drains : Bool := true

/-- What a round comes to. -/
structure Round.Report where
  reductions : Nat
  rest : Rest
  /-- The effects that were handed over. -/
  effects : List Effect
  /-- The stored form of the instance as it goes on. -/
  bytes : List UInt8

/-- Why a round fails. -/
inductive Breakdown where
  | reduction (e : ReductionError RunError)
  | corrupt (e : CorruptState)

/-- What a history comes to. -/
structure History where
  /-- The reports of the rounds that succeeded. -/
  reports : List Round.Report := []
  /-- The instance after these rounds. -/
  soup : InstanceSoup
  /-- Why the next round failed; `none` if there was none. -/
  failure : Option Breakdown := none

/-- Keep an instance by storing it and reading it back. -/
def Checkpoint.restore (s : InstanceSoup) : Except CorruptState InstanceSoup := read ∅ (write s)

namespace Script

/-- One round of an instance that is kept as `keep` says once its effects are handed over: the
report, and the instance as it goes on. -/
def round (s : Script) (limit : Nat) (keep : InstanceSoup → Except CorruptState InstanceSoup)
    (soup : InstanceSoup) (r : Round) : Except Breakdown (Round.Report × InstanceSoup) := do
  let o ← (s.program.execute r.now limit (soup.sendEach r.messages)).mapError .reduction
  if r.drains then
    let (effects, drained) := o.soup.drainEffects
    let kept ← (keep drained).mapError .corrupt
    pure (⟨o.reductions, o.rest, effects, Checkpoint.write kept⟩, kept)
  else pure (⟨o.reductions, o.rest, [], Checkpoint.write o.soup⟩, o.soup)

/-- A history: rounds one after another, up to the first that fails. -/
def play (s : Script) (limit : Nat) (keep : InstanceSoup → Except CorruptState InstanceSoup) :
    InstanceSoup → List Round → History
  | soup, [] => { soup }
  | soup, r :: rounds => match s.round limit keep soup r with
    | .error e => { soup, failure := some e }
    | .ok (report, kept) =>
      let after := play s limit keep kept rounds
      { after with reports := report :: after.reports }

end Script

/-- The clock of a round shows a proper time, and the numbers of its messages are words. -/
structure Round.Fits (r : Round) : Prop where
  now : r.now.Proper
  messages : ∀ e ∈ r.messages, e.1 < 2 ^ 64 ∧ e.2.Fits

namespace Script

variable {s : Script} {limit : Nat} {soup kept : InstanceSoup} {r : Round} {report : Round.Report}

/-! ### Rounds in memory -/

/-- A round kept in memory is an execution; its soup goes on, without the effects handed over. -/
theorem exists_of_round (h : s.round limit .ok soup r = .ok (report, kept)) :
    ∃ o, s.program.execute r.now limit (soup.sendEach r.messages) = .ok o ∧
      kept = if r.drains then o.soup.drainEffects.2 else o.soup := by
  unfold round at h
  cases ho : s.program.execute r.now limit (soup.sendEach r.messages) with
  | error e =>
    rw [ho] at h
    cases h
  | ok o =>
    rw [ho] at h
    refine ⟨o, rfl, ?_⟩
    cases hd : r.drains with
    | false =>
      rw [hd] at h
      cases h
      rfl
    | true =>
      rw [hd] at h
      cases h
      rfl

/-- A round kept in memory never takes the counters back. -/
theorem counters_le_round (h : s.round limit .ok soup r = .ok (report, kept)) :
    soup.nextChannel ≤ kept.nextChannel ∧ soup.nextMonotonic ≤ kept.nextMonotonic := by
  obtain ⟨o, ho, rfl⟩ := exists_of_round h
  have hle := counters_le_reduces (reduces_of_execute ho)
  rw [Soup.sendEach_frame] at hle
  split <;> exact hle

/-- The counters of an instance were words if they are words at the end of its history. -/
theorem counted_of_play {rounds : List Round}
    (h : (s.play limit .ok soup rounds).soup.Counted) : soup.Counted := by
  induction rounds generalizing soup with
  | nil => exact h
  | cons r rounds ih =>
    unfold play at h
    split at h
    · exact h
    · next report kept hround =>
      have hkept := ih h
      have hle := counters_le_round hround
      exact ⟨Nat.lt_of_le_of_lt hle.1 hkept.channels, Nat.lt_of_le_of_lt hle.2 hkept.numbers⟩

end Script

/-! ### Soups that are shown alike -/

/-- Two soups that differ in the times of their timers only, which are shown alike. -/
structure Soup.Alike (s t : InstanceSoup) : Prop where
  blurred : s.blurred Instant.shown = t.blurred Instant.shown
  global : s.global = t.global

namespace Soup

variable {s t : InstanceSoup}

theorem Alike.refl (s : InstanceSoup) : s.Alike s := ⟨rfl, rfl⟩

/-- What is alike is shown alike. -/
theorem Alike.shown_eq (h : s.Alike t) : s.shown = t.shown := by
  have hof (s : InstanceSoup) : s.shown = { s.blurred Instant.shown with
      global := s.global
      runnables := (s.blurred Instant.shown).runnables.map Task.shown } := rfl
  rw [hof, hof, h.blurred, h.global]

theorem Alike.counted (h : s.Alike t) (hs : s.Counted) : t.Counted :=
  ⟨congrArg Soup.nextChannel h.blurred ▸ hs.channels,
    congrArg Soup.nextMonotonic h.blurred ▸ hs.numbers⟩

theorem Alike.sendEach (h : s.Alike t) (ms : List (Channel × Message)) :
    (s.sendEach ms).Alike (t.sendEach ms) where
  blurred := by rw [blurred_sendEach, blurred_sendEach, h.blurred]
  global := by
    rw [sendEach_frame, sendEach_frame t]
    exact h.global

theorem Alike.drainEffects (h : s.Alike t) : s.drainEffects.2.Alike t.drainEffects.2 where
  blurred := congrArg (fun u : InstanceSoup => { u with outbox := [] }) h.blurred
  global := h.global

/-- At rest, a soup is shown with other times of its timers. -/
theorem shown_of_rest (hrest : s.runnables = []) :
    s.shown = { s with timers := s.timers.mapValues Instant.shown } := by
  unfold shown
  rw [hrest]
  rfl

/-- At rest, a soup is like what it is shown as. -/
theorem Alike.shown (h : s.Alike t) (ht : Soup.Fits Instant.Proper t) (hrest : t.runnables = []) :
    s.Alike t.shown := by
  have htimers : (t.timers.mapValues Instant.shown).mapValues Instant.shown =
      t.timers.mapValues Instant.shown := congrArg Soup.timers ht.shown.shown_eq
  have hblurred : t.shown.blurred Instant.shown = t.blurred Instant.shown := by
    rw [shown_of_rest hrest]
    exact congrArg (fun timers => { t.blurred Instant.shown with timers }) htimers
  exact ⟨h.blurred.trans hblurred.symm, h.global⟩

/-- At rest, a steady soup is shown as one. -/
theorem Lasting.shown (h : s.Steady Instant.Proper) (hrest : s.runnables = []) :
    s.shown.Steady Instant.Proper := by
  have hfits : Soup.Fits Instant.Proper s.shown := (Lasting.fits h).shown.mono fun _ => Instant.Valid.proper
  rw [shown_of_rest hrest] at hfits ⊢
  exact { others := { h.others with timers := hfits.timers }, arms := h.arms, parts := h.parts }

end Soup

namespace Script

variable {s : Script} {limit : Nat} {kept stored : InstanceSoup}

/-- Executions of soups that are alike fail alike, or come to soups that are alike. -/
theorem execute_alike (limit : Nat) (h : kept.Alike stored) (now : Instant) :
    (∃ e, s.program.execute now limit kept = .error e ∧
      s.program.execute now limit stored = .error e) ∨
    ∃ o o', s.program.execute now limit kept = .ok o ∧ s.program.execute now limit stored = .ok o' ∧
      o.reductions = o'.reductions ∧ o.soup.Alike o'.soup := by
  obtain ⟨hsoup, hreductions, hfailure⟩ :=
    s.executeBy_blurred Instant.shown (fun _ => now) limit h.blurred
  have hglobal := s.global_executeBy (fun _ => now) limit kept
  rw [h.global, ← s.global_executeBy (fun _ => now) limit stored] at hglobal
  rw [Program.execute_eq, Program.execute_eq]
  unfold Program.Trail.outcome
  rw [← hfailure]
  cases (s.program.executeBy (fun _ => now) limit kept).failure with
  | some e => exact .inl ⟨e, rfl, rfl⟩
  | none => exact .inr ⟨_, _, rfl, rfl, hreductions, hsoup, hglobal⟩

/-! ### Rounds with restarts -/

section

variable (hs : s.FitsOver Instant.Proper)

include hs

/-- A round of steady instances that are alike does not depend on how they are kept: both fail with
the same error, or come to the same report, and go on alike. -/
theorem round_restore (h : kept.Alike stored) (hkept : kept.Steady Instant.Proper)
    (hstored : stored.Steady Instant.Proper) {r : Round} (hr : r.Fits)
    (hw : ∀ report next, s.round limit .ok kept r = .ok (report, next) → next.Counted) :
    (∃ e, s.round limit .ok kept r = .error e ∧
      s.round limit Checkpoint.restore stored r = .error e) ∨
    ∃ report next next', s.round limit .ok kept r = .ok (report, next) ∧
      s.round limit Checkpoint.restore stored r = .ok (report, next') ∧ next.Alike next' ∧
      next.Steady Instant.Proper ∧ next'.Steady Instant.Proper := by
  rcases s.execute_alike limit (h.sendEach r.messages) r.now with
    ⟨e, he, he'⟩ | ⟨o, o', ho, ho', hreductions, halike⟩
  · exact .inl ⟨.reduction e, by rw [round, he]; rfl, by rw [round, he']; rfl⟩
  have hchoices : o.soup.choices = o'.soup.choices := by
    have hsame := congrArg Soup.choices halike.blurred
    exact hsame
  have hrest : o.rest = o'.rest := by rw [Outcome.rest, Outcome.rest, hchoices]
  -- both soups are steady afterwards, since the counters of both are words
  have hsteady (hcounted : o.soup.Counted) :
      o.soup.Steady Instant.Proper ∧ o'.soup.Steady Instant.Proper :=
    ⟨hs.steady_of_execute hr.now (hkept.sendEach hr.messages) ho hcounted,
      hs.steady_of_execute hr.now (hstored.sendEach hr.messages) ho' (halike.counted hcounted)⟩
  have hbytes {t t' : InstanceSoup} (ht : t.Steady Instant.Proper) (ht' : t'.Steady Instant.Proper)
      (h : t.Alike t') : Checkpoint.write t' = Checkpoint.write t := by
    rw [← Checkpoint.write_shown ht.fits, ← Checkpoint.write_shown ht'.fits, h.shown_eq]
  cases hd : r.drains with
  | false =>
    have hround : s.round limit .ok kept r =
        .ok (⟨o.reductions, o.rest, [], Checkpoint.write o.soup⟩, o.soup) := by
      rw [round, ho, hd]
      rfl
    obtain ⟨hone, hother⟩ := hsteady (hw _ _ hround)
    refine .inr ⟨_, _, o'.soup, hround, ?_, halike, hone, hother⟩
    rw [round, ho', hd, hreductions, hrest, ← hbytes hone hother halike]
    rfl
  | true =>
    have hround : s.round limit .ok kept r = .ok (⟨o.reductions, o.rest, o.soup.drainEffects.1,
        Checkpoint.write o.soup.drainEffects.2⟩, o.soup.drainEffects.2) := by
      rw [round, ho, hd]
      rfl
    have hcounted := hw _ _ hround
    obtain ⟨hone, hother⟩ := hsteady ⟨hcounted.channels, hcounted.numbers⟩
    have hidle : o'.soup.drainEffects.2.runnables = [] := by
      rw [Program.execute_eq] at ho'
      exact runnables_of_outcome ho'
    have hfits : Soup.Fits Instant.Proper o'.soup.drainEffects.2 := hother.drainEffects.fits
    -- what is read back is what the stored soup is shown as
    have hrestore : Checkpoint.restore o'.soup.drainEffects.2 = .ok o'.soup.drainEffects.2.shown :=
      Checkpoint.read_write_of_proper (RemapTable.spares_empty _) hfits
    have hsame : Checkpoint.write o'.soup.drainEffects.2.shown =
        Checkpoint.write o.soup.drainEffects.2 := by
      rw [Checkpoint.write_shown hfits]
      exact hbytes hone.drainEffects hother.drainEffects halike.drainEffects
    have houtbox : o'.soup.outbox = o.soup.outbox := (congrArg Soup.outbox halike.blurred).symm
    refine .inr ⟨_, _, o'.soup.drainEffects.2.shown, hround, ?_, halike.drainEffects.shown hfits hidle,
      hone.drainEffects, Soup.Lasting.shown hother.drainEffects hidle⟩
    rw [round, ho', hd, hreductions, hrest, ← hsame]
    show ((Checkpoint.restore o'.soup.drainEffects.2).mapError Breakdown.corrupt >>= _) = _
    rw [hrestore]
    show Except.ok _ = Except.ok _
    rw [Soup.drainEffects, houtbox]
    rfl

/-- No history of steady instances that are alike depends on how they are kept. -/
theorem play_restore_of_alike (h : kept.Alike stored) (hkept : kept.Steady Instant.Proper)
    (hstored : stored.Steady Instant.Proper) {rounds : List Round}
    (hrounds : ∀ r ∈ rounds, r.Fits) (hw : (s.play limit .ok kept rounds).soup.Counted) :
    let memory := s.play limit .ok kept rounds
    let store := s.play limit Checkpoint.restore stored rounds
    store.reports = memory.reports ∧ store.failure = memory.failure ∧
      store.soup.shown = memory.soup.shown := by
  -- along the rounds both instances stay steady and alike, as the counters at the end bound all
  -- before
  induction rounds generalizing kept stored with
  | nil => exact ⟨rfl, rfl, h.shown_eq.symm⟩
  | cons r rounds ih =>
    have hcounted (report : Round.Report) (next : InstanceSoup)
        (hround : s.round limit .ok kept r = .ok (report, next)) :
        (s.play limit .ok next rounds).soup.Counted := by
      rw [play, hround] at hw
      exact hw
    rcases round_restore hs h hkept hstored (hrounds r List.mem_cons_self)
        (fun report next hround => counted_of_play (hcounted report next hround)) with
      ⟨e, he, he'⟩ | ⟨report, next, next', hround, hround', halike, hnext, hnext'⟩
    · simp only [play, he, he']
      exact ⟨trivial, trivial, h.shown_eq.symm⟩
    · obtain ⟨hreports, hfailure, hsoup⟩ := ih halike hnext hnext'
        (fun r' hr' => hrounds r' (List.mem_cons_of_mem _ hr')) (hcounted report next hround)
      simp only [play, hround, hround']
      exact ⟨congrArg (report :: ·) hreports, hfailure, hsoup⟩

end

/-- **No history of an instance depends on how the instance is kept.**  With and without restarts
the rounds have the same reports and the same end.  Whatever fits is read back from its stored form
with its instants as they are shown, but for the effects not yet handed over, and is stored in the
same form again.  An instant is shown as it is unless it is a leap second that does not end a
minute. -/
theorem play_restore (hd : s.definition.Fits) (htells : s.Tells Instant.Proper)
    {rounds : List Round} (hrounds : ∀ r ∈ rounds, r.Fits)
    (hw : (s.play limit .ok s.newSoup rounds).soup.Counted) :
    (let memory := s.play limit .ok s.newSoup rounds
      let store := s.play limit Checkpoint.restore s.newSoup rounds
      store.reports = memory.reports ∧ store.failure = memory.failure ∧
        store.soup.shown = memory.soup.shown) ∧
    ∀ t : InstanceSoup, Soup.Fits Instant.Proper t →
      Checkpoint.read ∅ (Checkpoint.write t) = .ok { t.shown with outbox := [] } ∧
      Checkpoint.write { t.shown with outbox := [] } = Checkpoint.write t ∧
      (Soup.Fits Instant.Valid t → t.shown = t) := by
  have hs : s.FitsOver Instant.Proper := ⟨hd, htells, Instant.endures_proper⟩
  have hnew := steady_newSoup Instant.Proper hd.root
  exact ⟨play_restore_of_alike hs (.refl _) hnew hnew hrounds hw, fun t ht =>
    ⟨Checkpoint.read_write_of_proper (RemapTable.spares_empty _) ht, Checkpoint.write_restored ht,
      Soup.Fits.shown_eq⟩⟩

/-- The deadlines of a vigil are named at the time of their occasion. -/
theorem vigil_tells (T : Instant → Prop) : vigil.Tells T := by
  intro o expression t hnow ht
  cases ht
  exact hnow

theorem vigil_fits : vigil.Fits where
  definition :=
    { root := by decide, references := by decide, lengths := by decide, alarms := by decide }
  deadlines := vigil_tells Instant.Valid

/-- A vigil starts within a leap second, and an hour later its alarm goes off. -/
def vigilRounds : List Round :=
  [{ now := ⟨30, 1500000000⟩ }, { now := ⟨3630, 500000000⟩, messages := [(9, .timeout)] }]

theorem vigilRounds_fit : ∀ r ∈ vigilRounds, r.Fits := by
  intro r hr
  rcases List.mem_pair.1 hr with rfl | rfl
  · exact ⟨⟨by decide, by decide⟩, nofun⟩
  · refine ⟨⟨by decide, by decide⟩, ?_⟩
    intro e he
    rw [List.mem_singleton.1 he]
    exact ⟨by decide, trivial⟩

/-- A vigil goes through both rounds alike with and without restarts. -/
theorem play_restore_vigil :
    vigil.Tells Instant.Proper ∧ (∀ r ∈ vigilRounds, r.Fits) ∧
    (vigil.play 100 Checkpoint.restore vigil.newSoup vigilRounds).reports =
      (vigil.play 100 .ok vigil.newSoup vigilRounds).reports ∧
    (vigil.play 100 .ok vigil.newSoup vigilRounds).reports.map Round.Report.reductions = [5, 6] := by
  have hw : (vigil.play 100 .ok vigil.newSoup vigilRounds).soup.Counted :=
    ⟨by decide +kernel, by decide +kernel⟩
  exact ⟨vigil_tells _, vigilRounds_fit,
    (play_restore vigil_fits.definition (vigil_tells _) vigilRounds_fit hw).1.1, by decide +kernel⟩

/-- A new vigil with a timer that goes off in a leap second half a minute after midnight. -/
def vigilLeap : InstanceSoup :=
  { vigil.newSoup with timers := vigil.newSoup.timers.insert 9 ⟨30, 1500000000⟩ }

theorem vigilLeap_fits : Soup.Fits Instant.Proper vigilLeap := by
  have hnew := (steady_newSoup (s := vigil) Instant.Proper vigil_fits.definition.root).fits
  refine { hnew with timers := fun e he => ?_ }
  rw [List.mem_singleton.1 he]
  exact ⟨by decide, ⟨by decide, by decide⟩⟩

/-- The timer of such a vigil is read back as one that goes off half a second into the next
second. -/
theorem read_ne_vigilLeap :
    Checkpoint.read ∅ (Checkpoint.write vigilLeap) ≠ .ok { vigilLeap with outbox := [] } := by
  intro hread
  rw [Checkpoint.read_write_of_proper (RemapTable.spares_empty _) vigilLeap_fits] at hread
  have htimers : [(9, ⟨31, 500000000⟩)] = [((9 : Channel), (⟨30, 1500000000⟩ : Instant))] :=
    congrArg (fun s : InstanceSoup => s.timers.entries) (Except.ok.inj hread)
  cases htimers

/-- So not every soup is restored with all that it holds. -/
theorem restore_ne_vigilLeap : ¬ ∀ t : InstanceSoup, Soup.Fits Instant.Proper t →
    Checkpoint.restore t = .ok { t with outbox := [] } :=
  fun h => read_ne_vigilLeap (h vigilLeap vigilLeap_fits)

end Script

end Perdure
