import Perdure.Proofs.Engine.Wakeups
import Perdure.Proofs.Instance.Tended

/-!
# After a crash

An engine may stop between any two things that it does to the outside.  What is left is the store as
far as it was written; the pending timers are gone, and with the same processes the engine starts
again and recovers.  Since a run stores its verdict in one write, an instance is found as it was
before the run or as it was left afterwards.  The exception is a start: its record is created first
and its first run is stored by a second write.  Recovery asks for timers only, so an instance that
was caught between the two is left alone with all of its work to do.

## Main definitions

* `Store.replay` — the store after the changes among some actions.
* `Site.acts`, `Site.crash` — what is done in an event, and a site whose engine stopped midway.

## Main results

* `Engine.replay_take_serve` — what is stored when an operation is cut short.
* `Site.get?_crash_start` — an instance whose start is cut short is found as it was created.
* `Site.survives_crash` — after a crash all instances wait for timers that are pending, except for
  one that was just created.
-/

namespace Perdure

/-! ### Journals that are cut short -/

/-- The store after an action; a change that is refused is none. -/
def Action.onStore (s : Store) : Action → Store
  | .change c => (c.apply s).toOption.getD s
  | _ => s

/-- The store after the changes among some actions. -/
def Store.replay (s : Store) (acts : List Action) : Store := acts.foldl Action.onStore s

namespace Store

@[simp] theorem replay_nil (s : Store) : s.replay [] = s := rfl

/-- What is done about timers changes no store. -/
theorem replay_of_isTimer {acts : List Action} (hacts : ∀ a ∈ acts, a.isTimer = true) (s : Store) :
    s.replay acts = s := by
  induction acts generalizing s with
  | nil => rfl
  | cons a rest ih =>
    have hrest := ih fun b hb => hacts b (List.mem_cons_of_mem a hb)
    cases a with
    | change c =>
      have hchange := hacts _ List.mem_cons_self
      cases hchange
    | registerTimer | cancelTimer => exact hrest s

/-- A change that is made is made again. -/
theorem replay_change {s s' : Store} {c : Change} (hc : c.apply s = .ok s') (acts : List Action) :
    s.replay (.change c :: acts) = s'.replay acts := by
  show (((c.apply s).toOption.getD s).replay acts) = _
  rw [hc]
  rfl

end Store

/-- A record is created if its name is free. -/
theorem Change.apply_create {s : Store} {r : Record} (hfree : s.get? r.instanceId = none) :
    (Change.create r).apply s = .ok (s.insert r) := by
  unfold apply
  dsimp only
  rw [hfree]

namespace Engine

variable {e : Engine} {now : Instant} {id : InstanceId} {i : Injection} {h : Host}
  {did : Except EngineError Status × Host}

/-- A run does nothing, or makes one change and then sees to timers. -/
theorem Ran.journal_cases (hd : Ran e now id i h did) : did.2 = h ∨
    ∃ (change : Change) (timers : List Action), did.2.journal = h.journal ++ .change change :: timers ∧
      (∀ a ∈ timers, a.isTimer = true) ∧ change.apply h.store = .ok did.2.store := by
  cases hd with
  | idle => exact .inl rfl
  | @failed r d soup sent source change hr hl hsent ho hc =>
    refine .inr ⟨change, [], rfl, nofun, ?_⟩
    subst hc
    exact Change.apply_of_get? nofun hr
  | @rested r d soup sent o change status hr hl hsent ho hv =>
    have htarget := target_verdict now id o.rest o.soup.completion? o.soup.settled
    have hcreate := verdict_ne_create now id o.rest o.soup.completion? o.soup.settled
    rw [hv] at htarget hcreate
    refine .inr ⟨change, o.soup.outbox.map (enact id) ++
      (if status.isFinal then o.soup.settled.timers.keys else []).map (.cancelTimer id),
      List.append_assoc h.journal [.change change] _, fun _ ha => isTimer_of_mem_asked ha,
      Change.apply_of_get? hcreate (htarget ▸ hr)⟩

/-- When a run is cut short after its first action, its change was made. -/
theorem Ran.replay_take (hd : Ran e now id i h did) : ∃ acts, did.2.journal = h.journal ++ acts ∧
    ∀ k, 1 ≤ k → h.store.replay (acts.take k) = did.2.store := by
  rcases hd.journal_cases with hsame | ⟨change, timers, hjournal, htimers, happly⟩
  · refine ⟨[], by rw [hsame, List.append_nil], fun k _ => ?_⟩
    rw [List.take_nil, Store.replay_nil, hsame]
  · refine ⟨_, hjournal, fun k hk => ?_⟩
    rw [← Nat.sub_add_cancel hk, List.take_succ_cons, Store.replay_change happly]
    exact Store.replay_of_isTimer (fun a ha => htimers a (List.mem_of_mem_take ha)) _

/-- An operation does nothing or runs its instance; a start creates the record first. -/
theorem journal_serve (e : Engine) (c : EngineCall) (hf : h.failing = []) (hj : h.journal = []) :
    let did := (e.serve c).perform h
    (∀ k, 1 ≤ k → h.store.replay (did.2.journal.take k) = did.2.store) ∨
    ∃ r acts, e.newborn? c = some r ∧ h.store.get? c.id = none ∧
      (Change.create r).apply h.store = .ok (h.store.insert r) ∧
      did.2.journal = .change (.create r) :: acts ∧
      ∀ k, 1 ≤ k → (h.store.insert r).replay (acts.take k) = did.2.store := by
  intro did
  rcases e.ran_serve c hf with ⟨_, _, refusal, -, hrefused⟩ | ⟨h₀, hb, hran⟩
  · have hdid : did.2 = h := congrArg Prod.snd hrefused
    refine .inl fun k _ => ?_
    rw [hdid, hj, List.take_nil, Store.replay_nil]
  · obtain ⟨acts, hacts, hreplay⟩ := hran.replay_take
    have hacts : did.2.journal = h₀.journal ++ acts := hacts
    cases hb with
    | stored =>
      rw [hj, List.nil_append] at hacts
      rw [hacts]
      exact .inl hreplay
    | @created r hnew hid hfree =>
      have happly := Change.apply_create (hid.symm ▸ hfree)
      refine .inr ⟨r, acts, hnew, hfree, happly, ?_, hreplay⟩
      have hjournal : (h.make (.create r) r).journal = h.journal ++ [.change (.create r)] := rfl
      rw [hacts, hjournal, hj]
      rfl

/-- A start whose name is free creates its record, and then runs its instance. -/
theorem perform_serve_of_newborn {c : EngineCall} {r : Record} (hf : h.failing = [])
    (hnew : e.newborn? c = some r) (hfree : h.store.get? c.id = none) :
    (e.serve c).perform h = (e.reduce c.now c.id .start).perform (h.make (.create r) r) := by
  obtain ⟨⟨createdAt, hc⟩, -, -, d, hd, -⟩ := exists_of_newborn? hnew
  rw [newborn?_start hc hd] at hnew
  unfold serve
  rw [hc]
  dsimp only
  rw [start, perform_start hf hd createdAt (Option.some.inj hnew).symm, hfree]
  rfl

/-- When such a start is cut short after its first action, its record was created. -/
theorem replay_take_one_of_newborn {c : EngineCall} {r : Record} (hf : h.failing = [])
    (hj : h.journal = []) (hnew : e.newborn? c = some r) (hfree : h.store.get? c.id = none) :
    h.store.replay (((e.serve c).perform h).2.journal.take 1) = h.store.insert r := by
  have hmade : (h.make (.create r) r).failing = [] := hf
  obtain ⟨acts, hacts, -⟩ := (e.ran_reduce c.now c.id .start hmade).replay_take
  have hjournal : (h.make (.create r) r).journal = h.journal ++ [.change (.create r)] := rfl
  obtain ⟨-, hid, -⟩ := exists_of_newborn? hnew
  have happly := Change.apply_create (hid.symm ▸ hfree)
  rw [perform_serve_of_newborn hf hnew hfree, hacts, hjournal, hj]
  exact Store.replay_change happly []

/-- After two actions all that an operation stores is stored. -/
theorem replay_take_serve_of_two_le (e : Engine) (c : EngineCall) (hf : h.failing = [])
    (hj : h.journal = []) {k : Nat} (hk : 2 ≤ k) :
    h.store.replay (((e.serve c).perform h).2.journal.take k) =
      ((e.serve c).perform h).2.store := by
  rcases e.journal_serve c hf hj with hreplay | ⟨r, acts, -, -, happly, hjournal, hreplay⟩
  · exact hreplay k (by omega)
  · obtain ⟨n, rfl⟩ := Nat.exists_eq_add_of_le' hk
    rw [hjournal, List.take_succ_cons, Store.replay_change happly]
    exact hreplay (n + 1) (by omega)

/-- When an operation is cut short, the store is as it was before or as it is afterwards, unless a
record was created and no more. -/
theorem replay_take_serve (e : Engine) (c : EngineCall) (hf : h.failing = [])
    (hj : h.journal = []) (k : Nat) :
    let did := (e.serve c).perform h
    let cut := did.2.journal.take k
    h.store.replay cut = h.store ∨ h.store.replay cut = did.2.store ∨
      ∃ r, e.newborn? c = some r ∧ h.store.get? c.id = none ∧ cut = [.change (.create r)] ∧
        h.store.replay cut = h.store.insert r := by
  match k with
  | 0 => exact .inl rfl
  | 1 =>
    intro did cut
    rcases e.journal_serve c hf hj with hreplay | ⟨r, acts, hnew, hfree, happly, hjournal, -⟩
    · exact .inr (.inl (hreplay 1 le_rfl))
    · have hcut : cut = [.change (.create r)] := congrArg (List.take 1) hjournal
      refine .inr (.inr ⟨r, hnew, hfree, hcut, ?_⟩)
      rw [hcut, Store.replay_change happly, Store.replay_nil]
  | n + 2 => exact .inr (.inl (e.replay_take_serve_of_two_le c hf hj (by omega)))

end Engine

/-! ### Sites whose engine stops -/

namespace Site

/-- What is done to the outside in an event. -/
def acts (s : Site) : SiteEvent → List Action
  | .register .. => []
  | .call c => (s.perform (s.engine.serve c)).1.2
  | .recover => (s.perform s.engine.recover).1.2
  | .expire now key =>
    if s.pending.contains key then
      ({ s with now, pending := s.pending.erase key }.perform (s.engine.serve (key.call now))).1.2
    else []

/-- The engine stops in an event when it has done so much, and starts again with the same processes;
pending timers are lost. -/
def crash (s : Site) (v : SiteEvent) (k : Nat) : Site :=
  { s with host := { store := s.host.store.replay ((s.acts v).take k) }, pending := ∅ }

variable {s : Site}

/-- A deployment stores nothing. -/
theorem store_crash_register (s : Site) (d : Definition) (remap : RemapTable) (k : Nat) :
    (s.crash (.register d remap) k).host.store = s.host.store := by
  show s.host.store.replay (([] : List Action).take k) = _
  rw [List.take_nil, Store.replay_nil]

/-- Recovery stores nothing. -/
theorem store_crash_recover (hs : s.Ready) (k : Nat) :
    (s.crash .recover k).host.store = s.host.store := by
  obtain ⟨n, hrecover⟩ := s.engine.perform_recover hs.failing
  show s.host.store.replay ((s.engine.recover.perform s.host).2.journal.take k) = _
  rw [hrecover, hs.journal, List.nil_append]
  apply Store.replay_of_isTimer
  intro a ha
  obtain ⟨_, _, _, _, _, _, _, _, _, rfl⟩ := Engine.mem_rearmings_iff.1 (List.mem_of_mem_take ha)
  rfl

/-- After two actions all that is stored in an event is stored. -/
theorem store_crash_of_two_le (hs : s.Ready) (v : SiteEvent) {k : Nat} (hk : 2 ≤ k) :
    (s.crash v k).host.store = (s.next v).host.store := by
  cases v with
  | register d remap => exact store_crash_register s d remap k
  | call c => exact s.engine.replay_take_serve_of_two_le c hs.failing hs.journal hk
  | recover => rw [store_crash_recover hs, store_recover hs]
  | expire now key =>
    unfold crash acts next
    dsimp only
    split
    · exact s.engine.replay_take_serve_of_two_le (key.call now) hs.failing hs.journal hk
    · rw [List.take_nil, Store.replay_nil]

/-- After a crash the store is as it was before the event or as it is after it, unless a record was
created and no more. -/
theorem store_crash (hs : s.Ready) (v : SiteEvent) (k : Nat) :
    (s.crash v k).host.store = s.host.store ∨ (s.crash v k).host.store = (s.next v).host.store ∨
      ∃ c r, v = .call c ∧ s.engine.newborn? c = some r ∧ s.host.store.get? c.id = none ∧
        (s.acts v).take k = [.change (.create r)] ∧
        (s.crash v k).host.store = s.host.store.insert r := by
  cases v with
  | register d remap => exact .inr (.inl (store_crash_register s d remap k))
  | call c =>
    rcases s.engine.replay_take_serve c hs.failing hs.journal k with hsame | hdone |
      ⟨r, hnew, hfree, hcut, hreplay⟩
    · exact .inl hsame
    · exact .inr (.inl hdone)
    · exact .inr (.inr ⟨c, r, rfl, hnew, hfree, hcut, hreplay⟩)
  | recover => exact .inl (store_crash_recover hs k)
  | expire now key =>
    unfold crash acts next
    dsimp only
    split
    · rcases s.engine.replay_take_serve (key.call now) hs.failing hs.journal k with hsame | hdone |
        ⟨r, hnew, -⟩
      · exact .inl hsame
      · exact .inr (.inl hdone)
      · cases hnew
    · exact .inl (by rw [List.take_nil, Store.replay_nil])

/-- An instance whose start is cut short once its record is created is found as it was created. -/
theorem get?_crash_start (hs : s.Ready) {c : EngineCall} {r : Record}
    (hnew : s.engine.newborn? c = some r) (hfree : s.host.store.get? c.id = none) :
    (s.crash (.call c) 1).host.store.get? c.id = some r := by
  have hstore := Engine.replay_take_one_of_newborn hs.failing hs.journal hnew hfree
  obtain ⟨-, hid, -⟩ := Engine.exists_of_newborn? hnew
  exact (congrArg (Store.get? · c.id) hstore).trans (s.host.store.get?_insert_self hid)

end Site

/-! ### Timers that instances wait for -/

variable {w w₀ : Pending} {soup sent : InstanceSoup} {i : Injection} {id : InstanceId}

/-- Where no completion waits for the outside, no message is taken before a soup is stored. -/
theorem Soup.Tended.settled {s : Script} (h : Soup.Tended s soup) (hnone : soup.completion? = none) :
    Soup.Tended s soup.settled := by
  have hheard : Solo.heard soup.drainEffects.2 = soup.drainEffects.2.takeMessages 2 := by
    have hroot : soup.drainEffects.2.global.root = some ⟨1, 2⟩ := h.root
    unfold Solo.heard
    rw [hroot]
  have hempty : soup.queue 2 = [] := by
    rcases h.family.report .root List.mem_cons_self with hempty | ⟨fault, cs, hreport⟩
    · exact hempty
    · have hreport : soup.queue 2 = [.completed fault cs] := hreport
      have hnone : (soup.queue 2).findSome? Message.completion? = none := by
        unfold Soup.completion? at hnone
        rw [hheard] at hnone
        exact hnone
      rw [hreport] at hnone
      cases hnone
  refine h.of_queue (by rw [soup.settled_frame]) fun c => ?_
  unfold Soup.settled
  rw [hheard, Soup.queue_takeMessages]
  split
  · next hc =>
    rw [hc]
    exact hempty.symm
  · rfl

/-- Timers stay tended when they go off and when the root is told to stop. -/
theorem Soup.Tended.into {s : Script} {outside : Prop} (h : Soup.Tended s soup)
    (hwithin : w.Within soup) (hnone : soup.outbox = []) (hinside : ¬ outside)
    (hi : Intake outside w i w₀) (hsent : i.into id soup = .ok sent) : Soup.Tended s sent := by
  cases hi with
  | start =>
    cases hsent
    exact h
  | delivery hout => exact absurd hout hinside
  | terminate =>
    obtain ⟨root, hroot, rfl⟩ := Injection.into_terminate_eq_ok hsent
    rw [h.root] at hroot
    cases hroot
    exact h.send (.inr (.inr ⟨rfl, rfl⟩))
  | @expiry c hw ht =>
    cases hsent
    obtain ⟨d, hd⟩ := Option.ne_none_iff_exists'.1 hw
    exact h.send (h.accepts_of_armed (hwithin.armed hnone hd))

/-- What is kept of timers that somebody waits for. -/
structure Tends (s : Script) (soup : InstanceSoup) (w : Pending) : Prop where
  tended : Soup.Tended s soup
  apart : soup.Apart
  within : w.Within soup

theorem Tends.upkeep : Upkeep False Tends fun _ _ => True where
  newborn s := ⟨.newSoup s, s.apart_newSoup, nofun⟩
  put h hnone hi hsent :=
    { tended := h.tended.into h.within hnone id hi hsent
      apart := h.apart.into hsent
      within := h.within.into h.apart hnone id hi hsent }
  run h ho :=
    { tended := h.tended.of_execute ho
      apart := h.apart.of_execute ho
      within := h.within.of_execute h.apart ho }
  stored h hnone :=
    { tended := h.tended.settled hnone, apart := h.apart.settled, within := h.within.settled }
  rearmed h hnone := { h with within := h.within.rearmed hnone }
  ended _ _ := trivial
  failed _ _ _ := trivial
  late _ _ := trivial

/-! ### Instances after a crash -/

/-- The record that a call creates keeps a new soup. -/
theorem Record.Keeps.of_newborn {e : Engine} (he : e.Fits) {c : EngineCall} {r : Record}
    (hnew : e.newborn? c = some r) :
    ∃ d, e.processes.get? r.processId = some d ∧ r.Keeps d.script.newSoup := by
  obtain ⟨-, -, hactive, d, hd, hstate⟩ := Engine.exists_of_newborn? hnew
  exact ⟨d, hd, .newSoup (he.script hd) hactive hstate⟩

namespace Site

variable {s : Site} {v : SiteEvent} {P : Script → InstanceSoup → Pending → Prop}
  {K : Record → Pending → Prop} {id : InstanceId} {r : Record}

/-- After a crash an active instance waits as it did before the event or as it does after it, unless
it was just created. -/
theorem active_crash (hs : s.Kept P K) (hnext : (s.next v).Kept P K) (hv : ¬ v.IsRegistration)
    (k : Nat) (hr : (s.crash v k).host.store.get? id = some r) (hactive : r.status = .active) :
    (∃ d soup w, r.Keeps soup ∧ s.engine.processes.get? r.processId = some d ∧
      soup.hasWork = false ∧ P d.script soup w) ∨
    ∃ c, v = .call c ∧ c.id = id ∧ s.engine.newborn? c = some r ∧
      (s.acts v).take k = [.change (.create r)] := by
  rcases store_crash hs.ready v k with hsame | hdone | ⟨c, new, hc, hnew, hfree, hcut, hcreated⟩
  · rw [hsame] at hr
    obtain ⟨d, soup, hwaits⟩ := hs.waiting hr hactive
    exact .inl ⟨d, soup, _, hwaits⟩
  · rw [hdone] at hr
    obtain ⟨d, soup, hwaits⟩ := hnext.waiting hr hactive
    rw [engine_next hv] at hwaits
    exact .inl ⟨d, soup, _, hwaits⟩
  · obtain ⟨-, hid, -⟩ := Engine.exists_of_newborn? hnew
    rw [hcreated, Store.get?_insert] at hr
    split at hr
    · next hown =>
      cases hr
      exact .inr ⟨c, hc, (hown.trans hid).symm, hnew, hcut⟩
    · obtain ⟨d, soup, hwaits⟩ := hs.waiting hr hactive
      exact .inl ⟨d, soup, _, hwaits⟩

/-- A site with an engine that has processes; no instance has started yet. -/
def opened (e : Engine) (now : Instant) : Site where
  engine := e
  now := now

/-- No instance has started there. -/
theorem Shows.opened (e : Engine) (now : Instant) (id : InstanceId) :
    (opened e now).Shows e id .unborn fun _ => none where
  ready := ⟨rfl, rfl⟩
  engine := rfl
  mirrors := .unborn
  pending := rfl

/-- A site after a crash is ready. -/
theorem Ready.crash (s : Site) (v : SiteEvent) (k : Nat) : (s.crash v k).Ready := ⟨rfl, rfl⟩

/-- **What a crash leaves behind.**  An engine runs with the same processes all along, nothing is
delivered but what timers send, and in the last event the engine stops, having done so much of what
it does in it.  It starts again on what is stored, and recovers.  Recovery changes nothing that is
stored.  The state of every active instance can be read, and the timers that are armed in it are
pending then.  An active instance has nothing to do but to wait, and every timer that it waits for is
pending; or it was just created, and it has all of its work to do. -/
theorem survives_crash {e : Engine} (he : e.Fits) (now : Instant) {past : List SiteEvent}
    {last : SiteEvent} (hfits : ∀ v ∈ last :: past, v.Fits e.evaluator)
    (hinside : ∀ v ∈ last :: past, ¬ v.IsDelivery)
    (hfixed : ∀ v ∈ last :: past, ¬ v.IsRegistration)
    (hcounted : (opened e now).Counted past)
    (hcounts : ((opened e now).after past).Counts last) (k : Nat) :
    let s := (opened e now).after past
    let back := s.crash last k
    let recovered := back.next .recover
    recovered.host.store = back.host.store ∧
    ∀ id r, back.host.store.get? id = some r → r.status = .active →
      ∃ d soup, e.Loads r d soup ∧
        (∀ t, recovered.pending.get? ⟨id, t⟩ = soup.timers.get? t) ∧
        ((soup.hasWork = false ∧ ∀ t ∈ soup.receivers.filterMap Receiver.timer,
            ∃ deadline, recovered.pending.get? ⟨id, t⟩ = some deadline) ∨
          (soup.hasWork = true ∧ soup = d.script.newSoup ∧
            ∃ c, last = .call c ∧ c.id = id ∧ e.newborn? c = some r ∧
              (s.acts last).take k = [.change (.create r)])) := by
  intro s back recovered
  have hpast {v : SiteEvent} (hv : v ∈ past) : v ∈ last :: past := List.mem_cons_of_mem last hv
  have hopened : (opened e now).Kept Tends fun _ _ => True :=
    { ready := ⟨rfl, rfl⟩, fits := he, presence := fun _ => .unborn fun _ => rfl }
  have hengine : s.engine = e := engine_after fun v hv => hfixed v (hpast hv)
  have hkept : s.Kept Tends fun _ _ => True :=
    Tends.upkeep.after hopened (fun v hv => hfits v (hpast hv)) hcounted
      (fun v hv => hinside v (hpast hv)) fun v hv hregister => absurd hregister (hfixed v (hpast hv))
  have hlast : ¬ last.IsRegistration := hfixed last List.mem_cons_self
  have hnext : (s.next last).Kept Tends fun _ _ => True :=
    Tends.upkeep.next hkept (hengine ▸ hfits last List.mem_cons_self) hcounts
      (hinside last List.mem_cons_self) fun hregister => absurd hregister hlast
  refine ⟨store_recover (.crash s last k), fun id r hr hactive => ?_⟩
  have hpending {d : Deployed} {soup : InstanceSoup} (hl : e.Loads r d soup) (t : Channel) :
      recovered.pending.get? ⟨id, t⟩ = soup.timers.get? t :=
    pending_recover (.crash s last k) rfl hr (hengine.symm ▸ hl) t
  rcases active_crash hkept hnext hlast k hr hactive with ⟨d, soup, w, hk, hd, hrest, htends⟩ |
    ⟨c, hc, hid, hnew, hcut⟩
  · have hl : e.Loads r d soup := hk.loads he (hengine ▸ hd)
    refine ⟨d, soup, hl, hpending hl, .inl ⟨hrest, fun t ht => ?_⟩⟩
    rw [← soup.awaitedTimers_eq] at ht
    rw [hpending hl]
    exact htends.tended.armed_of_rest hrest ht
  · rw [hengine] at hnew
    obtain ⟨d, hd, hk⟩ := Record.Keeps.of_newborn he hnew
    have hl : e.Loads r d d.script.newSoup := hk.loads he hd
    exact ⟨d, _, hl, hpending hl, .inr ⟨rfl, rfl, c, hc, hid, hnew, hcut⟩⟩

/-- A vigil starts, and the engine stops when its state is stored and before its timers are asked for:
recovery asks for the wait of a day and for the alarm. -/
theorem survives_crash_vigil :
    vigils.Fits ∧ vigilStart.Fits ∧
    ((opened vigils ⟨0, 0⟩).after []).Counts (.call vigilStart) ∧
    let back := ((opened vigils ⟨0, 0⟩).after []).crash (.call vigilStart) 2
    ∃ r, back.host.store.get? 1 = some r ∧ r.status = .active ∧
      (back.next .recover).pending.get? ⟨1, 8⟩ = some ⟨86400, 0⟩ ∧
      (back.next .recover).pending.get? ⟨1, 9⟩ = some ⟨3600, 0⟩ := by
  have hopened : ((opened vigils ⟨0, 0⟩).after []).Shows vigils 1 .unborn _ :=
    Shows.opened vigils ⟨0, 0⟩ 1
  have hcounts := hopened.counts vigils_fits (c := vigilStart) rfl (by decide +kernel)
  have hstarted := hopened.call vigils_fits vigilStart_fits rfl (by decide +kernel)
  have hstatus : (Solo.unborn.ask vigils vigilStart.now 1 vigilStart.operation).2.standing.map
      Standing.status = some .active := by decide +kernel
  obtain ⟨r, hr, hactive⟩ := hstarted.exists_record hstatus
  have hback := hr
  rw [← store_crash_of_two_le hopened.ready (.call vigilStart) le_rfl] at hback
  have hfits : ∀ v ∈ [SiteEvent.call vigilStart], v.Fits vigils.evaluator :=
    List.forall_mem_singleton.2 vigilStart_fits
  have hinside : ∀ v ∈ [SiteEvent.call vigilStart], ¬ v.IsDelivery := by decide
  obtain ⟨-, hinstances⟩ := survives_crash vigils_fits ⟨0, 0⟩ hfits hinside
    (List.forall_mem_singleton.2 nofun) trivial hcounts 2
  obtain ⟨d, soup, hl, hpending, -⟩ := hinstances 1 r hback hactive
  have hsoup := hstarted.soup?_eq_of_loads vigils_fits hr hl
  have harmed {t : Channel} {deadline : Instant}
      (ht : (Solo.unborn.ask vigils vigilStart.now 1 vigilStart.operation).2.soup?.bind
        (fun soup => soup.timers.get? t) = some deadline) :
      soup.timers.get? t = some deadline := by
    rw [hsoup] at ht
    exact ht
  exact ⟨vigils_fits, vigilStart_fits, hcounts, r, hback, hactive,
    (hpending 8).trans (harmed (by decide +kernel)), (hpending 9).trans (harmed (by decide +kernel))⟩

end Site

end Perdure
