import Recast.Check.Basic

/-!
The messages of a conversation, of which only the newest are kept. Messages of the user and the
assistant go first, the oldest before the others; system messages go when nothing else is left.
-/

namespace Recast

inductive Role where
  | system
  | user
  | assistant
  deriving DecidableEq, Inhabited

namespace Role

def name : Role → Text
  | .system => "system"
  | .user => "user"
  | .assistant => "assistant"

def check : Check Role
  | .text s =>
    if s = Role.system.name then .ok .system
    else if s = Role.user.name then .ok .user
    else if s = Role.assistant.name then .ok .assistant
    else .fault .role
  | _ => .fault .role

end Role

structure Message where
  role : Role
  content : Text
  deriving DecidableEq, Inhabited

namespace Message

def check (v : Value) : Checked Message :=
  Message.mk <$> Check.required "role" Role.check v <*> Check.required "content" Check.text v

def toValue (m : Message) : Value :=
  .record [("role", .text m.role.name), ("content", .text m.content)]

end Message

structure History where
  limit : Nat
  messages : List Message
  deriving DecidableEq

namespace History

def empty (limit : Nat) : History := ⟨limit, []⟩

/-- Removes the oldest message that is not the system's, or the oldest of all. -/
def evict (messages : List Message) : List Message :=
  if messages.any fun m => m.role ≠ .system then messages.eraseP fun m => m.role ≠ .system
  else messages.tail

def evictMany : Nat → List Message → List Message
  | 0, messages => messages
  | n + 1, messages => evictMany n (evict messages)

def append (h : History) (m : Message) : History :=
  let messages := h.messages ++ [m]
  { h with messages := evictMany (messages.length - h.limit) messages }

def extend (h : History) (ms : List Message) : History := ms.foldl append h

def length (h : History) : Nat := h.messages.length

/-- The form in which a conversation is written down. -/
def transcript (h : History) (id : Text) (savedAt : Float) : Value :=
  .record [("id", .text id), ("messages", .list (h.messages.map Message.toValue)),
    ("saved_at", .float savedAt)]

end History

end Recast
