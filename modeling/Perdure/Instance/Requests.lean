import Perdure.Soup
import Perdure.Text.Quoted

/-!
# Outstanding requests

Requests of partners that still await a reply.  A conversation is named by the partner link, the
operation and the correlation key; at most one request may be outstanding per conversation.

Older states keep the requests in a plain list, which may name a conversation twice; newer ones in
a manager, which cannot.

## Main definitions

* `Request`, `RequestKey` — a request, and the conversation it belongs to.
* `RequestManager` — the outstanding requests by conversation.
* `RequestManager.ofList` — the manager of a list, unless a conversation repeats.
* `RequestState` — either form of keeping requests.
-/

namespace Perdure

open Std

/-- The name of a conversation.  No correlation key and an empty one are different. -/
structure RequestKey where
  partnerLink : String
  operation : String
  correlationKey : Option String
deriving DecidableEq, Repr

namespace RequestKey

/-- Conversations in the order of their parts; one without a correlation key comes first. -/
instance : Ord RequestKey :=
  ⟨compareLex (compareOn (·.partnerLink))
    (compareLex (compareOn (·.operation)) (compareOn (·.correlationKey)))⟩

instance : TransOrd RequestKey :=
  inferInstanceAs (TransCmp (compareLex (compareOn RequestKey.partnerLink)
    (compareLex (compareOn RequestKey.operation) (compareOn RequestKey.correlationKey))))

instance : LawfulEqOrd RequestKey where
  eq_of_compare {a b} h := by
    obtain ⟨hp, h⟩ := eq_and_eq_of_compareLex h
    obtain ⟨ho, hc⟩ := eq_and_eq_of_compareLex h
    have hp : a.partnerLink = b.partnerLink := eq_of_compare_eq hp
    have ho : a.operation = b.operation := eq_of_compare_eq ho
    have hc : a.correlationKey = b.correlationKey := eq_of_compare_eq hc
    cases a; cases b; simp_all

/-- A conversation as text: its parts in quotes, with slashes between them. -/
def text (k : RequestKey) : String :=
  let start := Text.quoted k.partnerLink ++ "/" ++ Text.quoted k.operation
  match k.correlationKey with
  | none => start
  | some c => start ++ "/" ++ Text.quoted c

end RequestKey

/-- A request that awaits its reply. -/
structure Request where
  partnerLink : String
  operation : String
  correlationKey : Option String
  /-- Where the reply is sent. -/
  channel : Channel
  messageExchange : Option String
deriving DecidableEq, Repr

/-- The conversation that a request belongs to. -/
def Request.key (r : Request) : RequestKey := ⟨r.partnerLink, r.operation, r.correlationKey⟩

/-- Two requests of one conversation. -/
structure ConflictingRequest where
  key : RequestKey
deriving DecidableEq, Repr

/-- The wording of a conflict. -/
def ConflictingRequest.message (e : ConflictingRequest) : String :=
  s!"conflicting outstanding request for {e.key.text}"

/-- The outstanding requests by conversation. -/
structure RequestManager where
  table : Table RequestKey Request
  /-- Each request stands at its own conversation. -/
  keyed : ∀ e ∈ table.entries, e.1 = e.2.key
deriving DecidableEq

namespace RequestManager

/-- No outstanding requests. -/
def empty : RequestManager := ⟨∅, nofun⟩

instance : Inhabited RequestManager := ⟨empty⟩

/-- The outstanding requests in the order of their conversations. -/
def entries (m : RequestManager) : List Request := m.table.values

/-- The number of outstanding requests. -/
def size (m : RequestManager) : Nat := m.table.size

/-- Are there no outstanding requests? -/
def isEmpty (m : RequestManager) : Bool := m.table.isEmpty

/-- The outstanding request of a conversation. -/
def get? (m : RequestManager) (k : RequestKey) : Option Request := m.table.get? k

/-- Add a request, unless its conversation has one already. -/
def register (m : RequestManager) (r : Request) : Except ConflictingRequest RequestManager :=
  if m.table.contains r.key then .error ⟨r.key⟩
  else .ok ⟨m.table.insert r.key r, fun e he => by
    rcases Table.mem_place he with rfl | he
    · rfl
    · exact m.keyed e he⟩

/-- Take out every request that is replied to on a channel. -/
def release (m : RequestManager) (c : Channel) : List Request × RequestManager :=
  ((m.entries.filter (·.channel == c)),
    ⟨m.table.filter (·.2.channel != c), fun e he => m.keyed e (List.mem_filter.1 he).1⟩)

/-- The manager of a list of requests, unless two belong to one conversation. -/
def ofList (requests : List Request) : Except ConflictingRequest RequestManager :=
  requests.foldlM register empty

end RequestManager

/-- How the outstanding requests of an instance are kept. -/
inductive RequestState where
  /-- A plain list, as older states keep them. -/
  | list (requests : List Request)
  | manager (m : RequestManager)
deriving DecidableEq

namespace RequestState

/-- No requests, in the newer form. -/
def current : RequestState := .manager .empty

/-- Is this the newer form? -/
def isCurrent : RequestState → Bool
  | .list _ => false
  | .manager _ => true

/-- The newer form of a state, unless two requests belong to one conversation. -/
def convert : RequestState → Except ConflictingRequest RequestState
  | .list requests => (RequestManager.ofList requests).map .manager
  | .manager m => .ok (.manager m)

end RequestState

end Perdure
