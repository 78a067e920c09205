import Mathlib.Data.List.Induction
import Mathlib.Logic.Function.Basic
import Perdure.Proofs.Instance.Codec

/-!
# A manager as a partial map

What a manager answers depends only on which request it finds for which conversation, so it can be
replaced by a partial map from conversations to requests.  The calls of a manager are set beside
what they do to such a map, and the map in turn beside the calls that made it what it is.  The
written form keeps all of it.

## Main definitions

* `RequestCall`, `RequestAnswer`, `RequestManager.respond` — the calls of a manager.
* `Conversations.Answers`, `Conversations.Run` — what calls do to a partial map.
* `RequestCall.Brings`, `RequestCall.Removes` — the calls that bring a request and take it away.

## Main results

* `RequestManager.answers_respond` — a call does to a manager what it does to a partial map.
* `RequestManager.get?_after_iff` — a request is found from when it was registered to its release.
* `RequestManager.behaves_as_map` — managers are partial maps, in memory and in their written form.
-/

namespace Perdure

/-! ### Calls -/

/-- A call of a manager. -/
inductive RequestCall where
  | register (r : Request)
  | find (k : RequestKey)
  | release (c : Channel)
  /-- Go on with the manager of an older list. -/
  | convert (rs : List Request)

/-- What a manager answers. -/
inductive RequestAnswer where
  | done
  | conflict (e : ConflictingRequest)
  | found (r : Option Request)
  | released (rs : List Request)
deriving DecidableEq

namespace RequestManager

/-- The answer of a manager to a call, and the manager afterwards.  A conflict leaves it alone. -/
def respond (m : RequestManager) : RequestCall → RequestAnswer × RequestManager
  | .register r => match m.register r with
    | .ok m' => (.done, m')
    | .error e => (.conflict e, m)
  | .find k => (.found (m.get? k), m)
  | .release c => (.released (m.release c).1, (m.release c).2)
  | .convert rs => match ofList rs with
    | .ok m' => (.done, m')
    | .error e => (.conflict e, m)

/-- The manager after calls, from an empty one on. -/
def after (calls : List RequestCall) : RequestManager :=
  calls.foldl (fun m call => (m.respond call).2) empty

/-- What a manager answers to calls, one after the other. -/
def answers (m : RequestManager) : List RequestCall → List RequestAnswer
  | [] => []
  | call :: calls => (m.respond call).1 :: answers (m.respond call).2 calls

end RequestManager

/-! ### Partial maps -/

/-- A request, or none, for each conversation. -/
abbrev Conversations := RequestKey → Option Request

/-- The answer of a partial map to a call, and the partial map afterwards. -/
inductive Conversations.Answers (f : Conversations) :
    RequestCall → RequestAnswer → Conversations → Prop
  | registered {r : Request} (h : f r.key = none) :
      Answers f (.register r) .done (Function.update f r.key (some r))
  | occupied {r : Request} (h : f r.key ≠ none) :
      Answers f (.register r) (.conflict ⟨r.key⟩) f
  | found (k : RequestKey) : Answers f (.find k) (.found (f k)) f
  /-- The requests of the channel, each once, in the order of their conversations. -/
  | released {c : Channel} {rs : List Request}
      (h : ∀ r, r ∈ rs ↔ f r.key = some r ∧ r.channel = c)
      (ho : rs.Pairwise fun a b => compare a.key b.key = .lt) :
      Answers f (.release c) (.released rs) fun k => (f k).filter (·.channel != c)
  | converted {rs : List Request} {g : Conversations} (h : (rs.map Request.key).Nodup)
      (hg : ∀ k r, g k = some r ↔ r ∈ rs ∧ r.key = k) : Answers f (.convert rs) .done g
  /-- The first request that repeats an earlier one is reported. -/
  | repeated {before rest : List Request} {r : Request} (h : (before.map Request.key).Nodup)
      (hr : r.key ∈ before.map Request.key) :
      Answers f (.convert (before ++ r :: rest)) (.conflict ⟨r.key⟩) f

/-- The answers of a partial map to calls, and the partial map after them. -/
inductive Conversations.Run :
    Conversations → List RequestCall → List RequestAnswer → Conversations → Prop
  | nil (f : Conversations) : Run f [] [] f
  | cons {f g h : Conversations} {call : RequestCall} {answer : RequestAnswer}
      {calls : List RequestCall} {answers : List RequestAnswer} (ha : Answers f call answer g)
      (hr : Run g calls answers h) : Run f (call :: calls) (answer :: answers) h

namespace RequestManager

variable {m m' : RequestManager} {r : Request} {k : RequestKey}

/-! ### What a manager finds -/

/-- The requests of a manager are found under their conversations. -/
theorem get?_eq_some_iff : m.get? k = some r ↔ r ∈ m.entries ∧ r.key = k := by
  rw [get?, ← Table.mem_entries_iff (e := (k, r)), ← map_entries, List.mem_map]
  constructor
  · rintro ⟨r', hr', he⟩
    cases he
    exact ⟨hr', rfl⟩
  · rintro ⟨hr, rfl⟩
    exact ⟨r, hr, rfl⟩

/-- The conversations of a manager come in order. -/
theorem entries_ordered (m : RequestManager) :
    m.entries.Pairwise fun a b => compare a.key b.key = .lt := by
  have hordered := m.table.ordered
  rw [← map_entries] at hordered
  exact List.pairwise_map.1 hordered

theorem register_of_get?_eq_none (h : m.get? r.key = none) :
    ∃ m', m.register r = .ok m' ∧ m'.get? = Function.update m.get? r.key (some r) := by
  obtain ⟨m', hm', htable⟩ := register_of_not_mem (m := m) (r := r) fun hmem => by
    have hsome := Table.isSome_find_iff.2 hmem
    rw [show Table.find r.key m.table.entries = none from h] at hsome
    cases hsome
  refine ⟨m', hm', funext fun k => ?_⟩
  rw [get?, htable, Table.get?_insert, Function.update_apply]
  rfl

theorem register_of_get?_ne_none (h : m.get? r.key ≠ none) :
    m.register r = .error ⟨r.key⟩ :=
  if_pos (show m.table.contains r.key = true from Option.isSome_iff_ne_none.2 h)

/-- A release leaves the requests of other channels. -/
theorem get?_release (m : RequestManager) (c : Channel) :
    (m.release c).2.get? = fun k => (m.get? k).filter (·.channel != c) := by
  have hentries : (m.release c).2.entries = m.entries.filter (·.channel != c) := by
    show (m.table.entries.filter _).map Prod.snd = (m.table.entries.map Prod.snd).filter _
    rw [List.filter_map]
    rfl
  funext k
  refine Option.ext fun r => ?_
  rw [get?_eq_some_iff, hentries, List.mem_filter, Option.filter_eq_some_iff, get?_eq_some_iff,
    and_right_comm]

theorem not_nodup_of_repeat {before : List Request} (rest : List Request)
    (hr : r.key ∈ before.map Request.key) : ¬ ((before ++ r :: rest).map Request.key).Nodup := by
  rw [List.map_append, List.nodup_append]
  rintro ⟨-, -, hne⟩
  exact hne _ hr _ List.mem_cons_self rfl

/-- A list in which a conversation repeats has a first request that repeats an earlier one. -/
theorem exists_repeat {rs : List Request} (h : ¬ (rs.map Request.key).Nodup) :
    ∃ before r rest, rs = before ++ r :: rest ∧ (before.map Request.key).Nodup ∧
      r.key ∈ before.map Request.key := by
  induction rs using List.reverseRecOn with
  | nil => exact absurd List.nodup_nil h
  | append_singleton rs r ih =>
    by_cases hrs : (rs.map Request.key).Nodup
    · refine ⟨rs, r, [], rfl, hrs, ?_⟩
      by_contra hr
      refine h ?_
      rw [List.map_append, List.map_singleton]
      refine List.nodup_append.2 ⟨hrs, List.pairwise_singleton _ _, fun a ha b hb he => hr ?_⟩
      rwa [← List.mem_singleton.1 hb, ← he]
    · obtain ⟨before, r', rest, rfl, hbefore, hr'⟩ := ih hrs
      exact ⟨before, r', rest ++ [r], by simp, hbefore, hr'⟩

/-- The first request that repeats an earlier one is reported. -/
theorem ofList_of_repeat {before rest : List Request} (h : (before.map Request.key).Nodup)
    (hr : r.key ∈ before.map Request.key) : ofList (before ++ r :: rest) = .error ⟨r.key⟩ := by
  obtain ⟨m, hm, hperm⟩ := exists_ofList h
  have hget : m.get? r.key ≠ none := by
    obtain ⟨r', hr', hkey⟩ := List.mem_map.1 hr
    rw [get?_eq_some_iff.2 ⟨hperm.mem_iff.2 hr', hkey⟩]
    exact nofun
  have hfold : before.foldlM register empty = .ok m := hm
  rw [ofList, List.foldlM_append, hfold]
  show (m.register r >>= fun m' => rest.foldlM register m') = _
  rw [register_of_get?_ne_none hget]
  rfl

/-! ### Calls of a manager -/

/-- A call does to a manager what it does to a partial map. -/
theorem answers_respond (m : RequestManager) (call : RequestCall) :
    Conversations.Answers m.get? call (m.respond call).1 (m.respond call).2.get? := by
  cases call with
  | register r =>
    rw [respond]
    by_cases h : m.get? r.key = none
    · obtain ⟨m', hm', hget⟩ := register_of_get?_eq_none h
      rw [hm', hget]
      exact .registered h
    · rw [register_of_get?_ne_none h]
      exact .occupied h
  | find k => exact .found k
  | release c =>
    show Conversations.Answers _ _ (.released _) (m.release c).2.get?
    rw [get?_release]
    refine .released (fun r => ?_) (m.entries_ordered.sublist List.filter_sublist)
    rw [release, List.mem_filter, get?_eq_some_iff, and_iff_left rfl, beq_iff_eq]
  | convert rs =>
    rw [respond]
    by_cases h : (rs.map Request.key).Nodup
    · obtain ⟨m', hm', hperm⟩ := exists_ofList h
      rw [hm']
      refine .converted h fun k r => ?_
      rw [get?_eq_some_iff, hperm.mem_iff]
    · obtain ⟨before, r, rest, rfl, hbefore, hr⟩ := exists_repeat h
      rw [ofList_of_repeat hbefore hr]
      exact .repeated hbefore hr

/-- Calls do to a manager what they do to a partial map. -/
theorem run_answers (m : RequestManager) (calls : List RequestCall) :
    Conversations.Run m.get? calls (m.answers calls)
      (calls.foldl (fun m call => (m.respond call).2) m).get? := by
  induction calls generalizing m with
  | nil => exact .nil _
  | cons call calls ih => exact .cons (m.answers_respond call) (ih (m.respond call).2)

end RequestManager

/-! ### One answer -/

/-- Where the first repeated conversation stands in a list is unique. -/
theorem RequestManager.repeat_unique {before before' rest rest' : List Request} {r r' : Request}
    (h : before ++ r :: rest = before' ++ r' :: rest') (hb : (before.map Request.key).Nodup)
    (hb' : (before'.map Request.key).Nodup) (hr : r.key ∈ before.map Request.key)
    (hr' : r'.key ∈ before'.map Request.key) : r = r' := by
  rcases List.append_eq_append_iff.1 h with ⟨between, rfl, hrest⟩ | ⟨between, rfl, hrest⟩
  · cases between with
    | nil => exact (List.cons.inj hrest).1
    | cons a between =>
      cases (List.cons.inj hrest).1
      exact absurd hb' (not_nodup_of_repeat _ hr)
  · cases between with
    | nil => exact (List.cons.inj hrest).1.symm
    | cons a between =>
      cases (List.cons.inj hrest).1
      exact absurd hb (not_nodup_of_repeat _ hr')

/-- Requests in the order of their conversations are told by what they are. -/
theorem RequestManager.eq_of_ordered {rs rs' : List Request}
    (ho : rs.Pairwise fun a b => compare a.key b.key = .lt)
    (ho' : rs'.Pairwise fun a b => compare a.key b.key = .lt) (h : ∀ r, r ∈ rs ↔ r ∈ rs') :
    rs = rs' := by
  have hnodup {rs : List Request} (ho : rs.Pairwise fun a b => compare a.key b.key = .lt) :
      rs.Nodup := ho.imp fun {a b} hlt he => by
    rw [he] at hlt
    exact Table.compare_self_ne_lt b.key hlt
  refine ((List.perm_ext_iff_of_nodup (hnodup ho) (hnodup ho')).2 h).eq_of_pairwise ?_ ho ho'
  intro a b _ _ hab hba
  exact absurd (Std.TransCmp.lt_trans hab hba) (Table.compare_self_ne_lt a.key)

namespace Conversations

/-- A call has one answer, and leads to one partial map. -/
theorem Answers.unique {f g g' : Conversations} {call : RequestCall} {a a' : RequestAnswer}
    (h : Answers f call a g) (h' : Answers f call a' g') : a = a' ∧ g = g' := by
  cases h with
  | registered hnone =>
    cases h' with
    | registered => exact ⟨rfl, rfl⟩
    | occupied hsome => exact absurd hnone hsome
  | occupied hsome =>
    cases h' with
    | registered hnone => exact absurd hnone hsome
    | occupied => exact ⟨rfl, rfl⟩
  | found k =>
    cases h'
    exact ⟨rfl, rfl⟩
  | released hrs ho =>
    cases h' with
    | released hrs' ho' =>
      rw [RequestManager.eq_of_ordered ho ho' fun r => (hrs r).trans (hrs' r).symm]
      exact ⟨rfl, rfl⟩
  | converted hrs hg =>
    cases h' with
    | converted _ hg' =>
      exact ⟨rfl, funext fun k => Option.ext fun r => (hg k r).trans (hg' k r).symm⟩
    | repeated _ hr => exact absurd hrs (RequestManager.not_nodup_of_repeat _ hr)
  | @repeated before rest r hbefore hr =>
    generalize hcall : RequestCall.convert (before ++ r :: rest) = call at h'
    cases h' with
    | converted hrs =>
      cases hcall
      exact absurd hrs (RequestManager.not_nodup_of_repeat _ hr)
    | repeated hbefore' hr' =>
      rw [RequestManager.repeat_unique (RequestCall.convert.inj hcall) hbefore hbefore' hr hr']
      exact ⟨rfl, rfl⟩
    | _ => cases hcall

/-- Calls have one row of answers, and lead to one partial map. -/
theorem Run.unique {f g g' : Conversations} {calls : List RequestCall}
    {as as' : List RequestAnswer} (h : Run f calls as g) (h' : Run f calls as' g') :
    as = as' ∧ g = g' := by
  induction h generalizing as' with
  | nil =>
    cases h'
    exact ⟨rfl, rfl⟩
  | cons ha _ ih =>
    cases h' with
    | cons ha' hr' =>
      obtain ⟨rfl, rfl⟩ := ha.unique ha'
      obtain ⟨rfl, rfl⟩ := ih hr'
      exact ⟨rfl, rfl⟩

end Conversations

/-! ### What brought a request, and what takes it away -/

/-- A call brings a request to a manager: it registers it for a new conversation, or goes on with
a list in which it stands. -/
def RequestCall.Brings (m : RequestManager) (r : Request) : RequestCall → Prop
  | .register r' => r' = r ∧ m.get? r.key = none
  | .convert rs => (rs.map Request.key).Nodup ∧ r ∈ rs
  | _ => False

/-- A call takes a request away: it releases its channel, or goes on with a list. -/
def RequestCall.Removes (r : Request) : RequestCall → Prop
  | .release c => r.channel = c
  | .convert rs => (rs.map Request.key).Nodup
  | _ => False

/-- What a partial map holds after a call was brought by it, or was there and was not taken away. -/
theorem Conversations.Answers.eq_some_iff {m : RequestManager} {g : Conversations}
    {call : RequestCall} {answer : RequestAnswer} (h : Answers m.get? call answer g) {r : Request}
    {k : RequestKey} : g k = some r ↔
      r.key = k ∧ (call.Brings m r ∨ (m.get? k = some r ∧ ¬ call.Removes r)) := by
  have hkey : m.get? k = some r → r.key = k := fun hk => (RequestManager.get?_eq_some_iff.1 hk).2
  cases h with
  | @registered r' hnone =>
    rw [Function.update_apply]
    by_cases hk : k = r'.key
    · subst hk
      rw [if_pos rfl, hnone]
      constructor
      · rintro ⟨⟩
        exact ⟨rfl, .inl ⟨rfl, hnone⟩⟩
      · rintro ⟨-, ⟨rfl, -⟩ | ⟨⟨⟩, -⟩⟩
        rfl
    · rw [if_neg hk]
      constructor
      · exact fun h => ⟨hkey h, .inr ⟨h, not_false⟩⟩
      · rintro ⟨rfl, ⟨rfl, -⟩ | ⟨h, -⟩⟩
        · exact absurd rfl hk
        · exact h
  | @occupied r' hsome =>
    constructor
    · exact fun h => ⟨hkey h, .inr ⟨h, not_false⟩⟩
    · rintro ⟨-, ⟨rfl, hnone⟩ | ⟨h, -⟩⟩
      · exact absurd hnone hsome
      · exact h
  | found k' =>
    constructor
    · exact fun h => ⟨hkey h, .inr ⟨h, not_false⟩⟩
    · rintro ⟨-, ⟨⟨⟩⟩ | ⟨h, -⟩⟩
      exact h
  | @released c rs hrs ho =>
    rw [Option.filter_eq_some_iff]
    constructor
    · rintro ⟨h, hne⟩
      exact ⟨hkey h, .inr ⟨h, bne_iff_ne.1 hne⟩⟩
    · rintro ⟨-, ⟨⟨⟩⟩ | ⟨h, hne⟩⟩
      exact ⟨h, bne_iff_ne.2 hne⟩
  | @converted rs g hrs hg =>
    rw [hg]
    constructor
    · rintro ⟨hmem, hk⟩
      exact ⟨hk, .inl ⟨hrs, hmem⟩⟩
    · rintro ⟨hk, ⟨-, hmem⟩ | ⟨-, hkept⟩⟩
      · exact ⟨hmem, hk⟩
      · exact absurd hrs hkept
  | @repeated before rest r' hbefore hr' =>
    have hnodup := RequestManager.not_nodup_of_repeat rest hr'
    constructor
    · exact fun h => ⟨hkey h, .inr ⟨h, hnodup⟩⟩
    · rintro ⟨-, ⟨h, -⟩ | ⟨h, -⟩⟩
      · exact absurd h hnodup
      · exact h

namespace RequestManager

variable {m : RequestManager} {r : Request} {k : RequestKey}

theorem after_append_singleton (calls : List RequestCall) (call : RequestCall) :
    after (calls ++ [call]) = ((after calls).respond call).2 := by
  rw [after, List.foldl_append]
  rfl

/-- A request is found after calls when one of them brought it and none has taken it away since. -/
theorem get?_after_iff (calls : List RequestCall) : (after calls).get? k = some r ↔
    r.key = k ∧ ∃ earlier call later, calls = earlier ++ call :: later ∧
      call.Brings (after earlier) r ∧ ∀ c ∈ later, ¬ c.Removes r := by
  induction calls using List.reverseRecOn with
  | nil =>
    refine iff_of_false nofun ?_
    rintro ⟨-, earlier, call, later, h, -⟩
    exact absurd h.symm (by simp)
  | append_singleton calls last ih =>
    rw [after_append_singleton, ((after calls).answers_respond last).eq_some_iff, ih]
    refine and_congr_right fun hk => ?_
    constructor
    · rintro (hb | ⟨⟨-, earlier, call, later, rfl, hb, hkept⟩, hlast⟩)
      · exact ⟨calls, last, [], rfl, hb, fun _ hc => nomatch hc⟩
      · refine ⟨earlier, call, later ++ [last], by simp, hb, fun c hc => ?_⟩
        rcases List.mem_append.1 hc with hc | hc
        · exact hkept c hc
        · exact List.mem_singleton.1 hc ▸ hlast
    · rintro ⟨earlier, call, later, h, hb, hkept⟩
      -- the call that brought it is the last one, or one before
      rcases List.eq_nil_or_concat later with rfl | ⟨later, c, rfl⟩
      · obtain ⟨rfl, hcall⟩ := List.append_inj' h rfl
        cases hcall
        exact .inl hb
      · rw [List.concat_eq_append] at h hkept
        rw [← List.cons_append, ← List.append_assoc] at h
        obtain ⟨rfl, hlast⟩ := List.append_inj' h rfl
        cases hlast
        exact .inr ⟨⟨hk, earlier, call, later, rfl, hb, fun c hc =>
          hkept c (List.mem_append_left _ hc)⟩, hkept last (List.mem_append_right _ (by simp))⟩

end RequestManager

/-! ### The written form -/

/-- The written form of a manager gives the same manager when it is read as a document. -/
theorem RequestState.readDocument_toJson {s : RequestState} (h : s.Fits) :
    ∃ doc, Json.readDocument s.toJson.render.toUTF8.toList = .ok doc ∧ ofJson? doc = some s := by
  have hcodec := RequestState.codec 0
  refine ⟨s.toJson.collapse, ?_, hcodec.readBack h⟩
  refine Json.readDocument_render ((hcodec.writable h).mono (by decide)) ?_
  cases s <;> exact nofun

/-- Entries in which a conversation repeats are not read. -/
theorem RequestState.ofJson?_of_repeat {v w entries : Json} {rs : List Request}
    (hv : v.tagged? shapeTag = some (managerShape, w))
    (hw : w.slots? ["entries"] = some [.given entries])
    (hrs : entries.list? Request.ofJson? = some rs) (h : ¬ (rs.map Request.key).Nodup) :
    ofJson? v = none := by
  obtain ⟨before, r, rest, rfl, hbefore, hr⟩ := RequestManager.exists_repeat h
  have hread : (Json.Slot.given entries).withDefault [] (Json.list? Request.ofJson?) =
      some (before ++ r :: rest) := hrs
  have hne : managerShape ≠ listShape := by decide
  rw [ofJson?, hv]
  simp [hw, hne, hread, RequestManager.ofList_of_repeat hbefore hr, Except.toOption]

/-! ### Managers and partial maps -/

/-- **Managers are partial maps.**  Calls have, from an empty manager on, the answers that they have
from an empty partial map on, and no others, and find afterwards what that map holds.  This is, of
each conversation, the request that a call brought and none has taken away since.  The written form
of a manager is read as the same manager, and no entries are read in which a conversation
repeats. -/
theorem RequestManager.behaves_as_map (calls : List RequestCall) :
    (∀ as f, Conversations.Run (fun _ => none) calls as f ↔
      as = empty.answers calls ∧ f = (after calls).get?) ∧
    (∀ k r, (after calls).get? k = some r ↔
      r.key = k ∧ ∃ earlier call later, calls = earlier ++ call :: later ∧
        call.Brings (after earlier) r ∧ ∀ c ∈ later, ¬ c.Removes r) ∧
    (∀ m : RequestManager, (RequestState.manager m).Fits → ∃ doc,
      Json.readDocument (RequestState.manager m).toJson.render.toUTF8.toList = .ok doc ∧
        RequestState.ofJson? doc = some (.manager m)) ∧
    ∀ (v w entries : Json) (rs : List Request),
      v.tagged? shapeTag = some (RequestState.managerShape, w) →
      w.slots? ["entries"] = some [.given entries] →
      entries.list? Request.ofJson? = some rs → ¬ (rs.map Request.key).Nodup →
      RequestState.ofJson? v = none := by
  have hrun : Conversations.Run (fun _ => none) calls (empty.answers calls) (after calls).get? :=
    empty.run_answers calls
  refine ⟨fun as f => ⟨fun h => h.unique hrun, ?_⟩, fun k r => get?_after_iff calls,
    fun m hm => RequestState.readDocument_toJson hm, fun v w entries rs hv hw hrs h =>
    RequestState.ofJson?_of_repeat hv hw hrs h⟩
  rintro ⟨rfl, rfl⟩
  exact hrun

/-- Conversations whose texts would be the same without quotes, and one with an empty key. -/
def slashedCalls : List RequestCall :=
  [.register ⟨"a/b", "c", none, 1, none⟩, .register ⟨"a", "b/c", none, 2, none⟩,
   .register ⟨"a", "b/c", some "", 2, none⟩, .register ⟨"a/b", "c", none, 3, none⟩,
   .release 2, .find ⟨"a", "b/c", none⟩, .find ⟨"a/b", "c", none⟩,
   .convert [⟨"a", "b/c", none, 4, none⟩, ⟨"a", "b/c", none, 5, none⟩]]

theorem RequestManager.behaves_as_map_slashed :
    Conversations.Run (fun _ => none) slashedCalls
      [.done, .done, .done, .conflict ⟨⟨"a/b", "c", none⟩⟩,
       .released [⟨"a", "b/c", none, 2, none⟩, ⟨"a", "b/c", some "", 2, none⟩], .found none,
       .found (some ⟨"a/b", "c", none, 1, none⟩), .conflict ⟨⟨"a", "b/c", none⟩⟩]
      (after slashedCalls).get? ∧
    (∃ doc, Json.readDocument
        (RequestState.manager (after slashedCalls)).toJson.render.toUTF8.toList = .ok doc ∧
      RequestState.ofJson? doc = some (.manager (after slashedCalls))) ∧
    RequestState.ofJson? (variant RequestState.managerShape
      [Json.field "entries" (.arr [Request.toJson ⟨"a", "b/c", none, 4, none⟩,
        Request.toJson ⟨"a", "b/c", none, 5, none⟩])]) = none := by
  obtain ⟨hrun, -, hread, hrepeat⟩ := behaves_as_map slashedCalls
  refine ⟨(hrun _ _).2 ⟨by decide +kernel, rfl⟩, hread _ ?_, hrepeat _ _ _
    [⟨"a", "b/c", none, 4, none⟩, ⟨"a", "b/c", none, 5, none⟩] rfl rfl rfl (by decide)⟩
  show ∀ r ∈ (after slashedCalls).entries, r.channel < 2 ^ 64
  decide +kernel

end Perdure
