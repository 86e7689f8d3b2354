import Mathlib.Data.List.Infix
import Mathlib.Logic.Embedding.Basic
import Mathlib.Logic.Function.Basic

namespace UnixNotes.Reactor.EpollPoller

inductive Index where
  | kNew
  | kAdded
  | kDeleted
  deriving DecidableEq

def EPOLLIN : UInt32 := 0x001

def EPOLLOUT : UInt32 := 0x004

def EPOLLRDHUP : UInt32 := 0x2000

def EPOLLET : UInt32 := 0x80000000

inductive Operation where
  | add
  | mod
  | del
  deriving DecidableEq

inductive Errno where
  | enoent
  | eexist
  | other
  deriving DecidableEq

/-- The interest list of the kernel, with the mask and the pointer that were registered. -/
abbrev Interest (κ : Type*) := Nat → Option (UInt32 × κ)

variable {κ : Type*} [DecidableEq κ]

/-- `refused` is an error that is not about what is registered. -/
def epollCtl (interest : Interest κ) (operation : Operation) (fd : Nat) (event : UInt32 × κ)
    (refused : Bool) : Except Errno (Interest κ) :=
  if refused then .error .other
  else
    match operation, interest fd with
    | .add, none => .ok (Function.update interest fd (some event))
    | .add, some _ => .error .eexist
    | .mod, some _ => .ok (Function.update interest fd (some event))
    | .del, some _ => .ok (Function.update interest fd none)
    | _, none => .error .enoent

structure State (κ : Type*) where
  events : κ → UInt32 := fun _ => 0
  index : κ → Index := fun _ => .kNew
  channels : Nat → Option κ := fun _ => none
  interest : Interest κ := fun _ => none

abbrev Outcome (κ : Type*) := State κ × Option String

section Poller

variable (fd : κ ↪ Nat) (channel : κ) (refused : Bool)

def Operation.thrown : Operation → String
  | .add => "epoll_ctl ADD"
  | .mod => "epoll_ctl MOD"
  | .del => "epoll_ctl DEL"

def setIndex (s : State κ) (index : Index) : State κ :=
  { s with index := Function.update s.index channel index }

def update (operation : Operation) (s : State κ) : Outcome κ :=
  match epollCtl s.interest operation (fd channel) (s.events channel, channel) refused with
  | .ok interest => ({ s with interest := interest }, none)
  | .error error =>
    if operation = .del ∧ error = .enoent then (s, none) else (s, some operation.thrown)

/-- `unordered_map::emplace`, which keeps what is there. -/
def emplace (s : State κ) : State κ :=
  if (s.channels (fd channel)).isSome then s
  else { s with channels := Function.update s.channels (fd channel) (some channel) }

def updateChannel (s : State κ) : Outcome κ :=
  match s.index channel with
  | .kNew => update fd channel refused .add (setIndex channel (emplace fd channel s) .kAdded)
  | .kDeleted => update fd channel refused .add (setIndex channel s .kAdded)
  | .kAdded =>
    if s.events channel = 0 then
      match update fd channel refused .del s with
      | (s, none) => (setIndex channel s .kDeleted, none)
      | (s, some what) => (s, some what)
    else update fd channel refused .mod s

def removeChannel (s : State κ) : Outcome κ :=
  if s.channels (fd channel) = none then (s, none)
  else
    match if s.index channel = .kAdded then update fd channel refused .del s else (s, none) with
    | (s, none) =>
      (setIndex channel { s with channels := Function.update s.channels (fd channel) none } .kNew,
        none)
    | (s, some what) => (s, some what)

end Poller

/-- The functions of `Channel` that change its mask or its registration. -/
inductive Request where
  | enableReading
  | disableReading
  | enableWriting
  | disableWriting
  | disableAll
  | enableEdgeTrigger
  | remove
  deriving DecidableEq

def Request.mask (events : UInt32) : Request → UInt32
  | .enableReading => events ||| (EPOLLIN ||| EPOLLRDHUP)
  | .disableReading => events &&& ~~~(EPOLLIN ||| EPOLLRDHUP)
  | .enableWriting => events ||| EPOLLOUT
  | .disableWriting => events &&& ~~~EPOLLOUT
  | .disableAll => 0
  | .enableEdgeTrigger => events ||| EPOLLET
  | .remove => events

/-- A call in the thread of the loop. It calls `epoll_ctl` at most once; `refused` is what that
gets. -/
structure Call (κ : Type*) where
  channel : κ
  request : Request
  refused : Bool
  deriving DecidableEq

namespace Call

def mask (call : Call κ) (s : State κ) : UInt32 := call.request.mask (s.events call.channel)

def setEvents (call : Call κ) (s : State κ) : State κ :=
  { s with events := Function.update s.events call.channel (call.mask s) }

def apply (fd : κ ↪ Nat) (call : Call κ) (s : State κ) : Outcome κ :=
  match call.request with
  | .enableEdgeTrigger => (call.setEvents s, none)
  | .remove => removeChannel fd call.channel call.refused s
  | _ => updateChannel fd call.channel call.refused (call.setEvents s)

end Call

def run (fd : κ ↪ Nat) (s : State κ) (calls : List (Call κ)) : State κ :=
  calls.foldl (fun s call => (call.apply fd s).1) s

/-- The channels, the poller and the kernel agree. -/
structure InStep (fd : κ ↪ Nat) (s : State κ) : Prop where
  interest : ∀ n event, s.interest n = some event ↔
    fd event.2 = n ∧ s.index event.2 = .kAdded ∧ event.1 = s.events event.2
  nonempty : ∀ channel, s.events channel = 0 → s.interest (fd channel) = none
  channels : ∀ n channel, s.channels n = some channel ↔
    fd channel = n ∧ s.index channel ≠ .kNew

/-- What `epoll_ctl` is asked for is granted or changes nothing, and no empty mask is added. -/
def Call.Fits (call : Call κ) (s : State κ) : Prop :=
  match call.request with
  | .remove => True
  | .enableEdgeTrigger =>
    s.index call.channel = .kAdded → call.mask s = s.events call.channel
  | _ =>
    if s.index call.channel = .kAdded then
      call.refused = true → call.mask s ≠ 0 ∧ call.mask s = s.events call.channel
    else call.refused = false ∧ call.mask s ≠ 0

def AllFit (fd : κ ↪ Nat) (s : State κ) : List (Call κ) → Prop
  | [] => True
  | call :: calls => call.Fits s ∧ AllFit fd (call.apply fd s).1 calls

end UnixNotes.Reactor.EpollPoller
