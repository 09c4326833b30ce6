import PullIngest.Table

/-!
# The bus

Messages are published on named channels and land in the mailbox of every subscriber of the
channel. A mailbox holds a bounded number of unread messages. The table of a channel may still
list subscribers whose mailbox is gone; publishing on the channel strikes them out.
-/

namespace PullIngest

/-- Channels with the numbers of their subscribers, and the mailboxes by number, each with its
unread messages, oldest first. -/
structure Bus (α : Type) where
  channels : Table String (List Nat) := ∅
  mailboxes : Table Nat (List α) := ∅
  nextMailbox : Nat := 0
  /-- Whether anybody can still publish. -/
  isOpen : Bool := true

namespace Bus

variable {α : Type}

/-- The number of unread messages that a mailbox holds at most. -/
def capacity : Nat := 256

/-- The unread messages of a mailbox, if the mailbox is still there. -/
def unread? (b : Bus α) (mailbox : Nat) : Option (List α) := b.mailboxes.get? mailbox

/-- Whether a mailbox is still there. -/
def isLive (b : Bus α) (mailbox : Nat) : Bool := b.mailboxes.has mailbox

/-- Whether a mailbox takes no more messages. -/
def isFull (b : Bus α) (mailbox : Nat) : Bool :=
  match b.unread? mailbox with
  | some queue => capacity ≤ queue.length
  | none => false

/-- The subscribers of a channel whose mailboxes are still there, in the order in which they
subscribed. -/
def subscribers (b : Bus α) (channel : String) : List Nat :=
  ((b.channels.get? channel).getD []).filter b.isLive

/-- Open a mailbox for all later messages on a channel. -/
def subscribe (b : Bus α) (channel : String) : Nat × Bus α :=
  (b.nextMailbox,
    { b with channels := b.channels.set channel
               ((b.channels.get? channel).getD [] ++ [b.nextMailbox])
             mailboxes := b.mailboxes.set b.nextMailbox []
             nextMailbox := b.nextMailbox + 1 })

/-- Give up a mailbox with everything in it. -/
def unsubscribe (b : Bus α) (mailbox : Nat) : Bus α :=
  { b with mailboxes := b.mailboxes.erase mailbox }

/-- Put a message into a mailbox unless it is full. -/
def deliver (b : Bus α) (m : α) (mailbox : Nat) : Bus α :=
  if b.isFull mailbox then b
  else { b with mailboxes := b.mailboxes.modify mailbox fun queue => queue ++ [m] }

/-- Keep only live subscribers of a channel in the table. -/
def prune (b : Bus α) (channel : String) : Bus α :=
  match b.subscribers channel with
  | [] => { b with channels := b.channels.erase channel }
  | live => { b with channels := b.channels.set channel live }

/-- The subscribers of a channel that are full. Each of them misses the next message. -/
def lagging (b : Bus α) (channel : String) : List Nat := (b.subscribers channel).filter b.isFull

/-- Whether publishing on a channel succeeds: not when there are subscribers and all are full. -/
def accepts (b : Bus α) (channel : String) : Bool :=
  (b.subscribers channel).isEmpty || (b.subscribers channel).any fun s => !b.isFull s

/-- Publish a message. A subscriber that is full misses it. -/
def publish (b : Bus α) (channel : String) (m : α) : Bus α :=
  if b.channels.has channel then
    (b.subscribers channel).foldl (fun b s => b.deliver m s) (b.prune channel)
  else b

/-- What a mailbox hands out. -/
inductive Received (α : Type) where
  | message (m : α)
  /-- Nothing is there now. -/
  | empty
  /-- Nothing is there, and nothing will ever come. -/
  | closed

/-- Take the oldest unread message out of a mailbox. -/
def receive (b : Bus α) (mailbox : Nat) : Received α × Bus α :=
  match b.unread? mailbox with
  | some (m :: queue) => (.message m, { b with mailboxes := b.mailboxes.set mailbox queue })
  | _ => (if b.isOpen then .empty else .closed, b)

/-- Take the oldest unread message, if there is one. -/
def take? (b : Bus α) (mailbox : Nat) : Option (α × Bus α) :=
  match b.receive mailbox with
  | (.message m, b) => some (m, b)
  | _ => none

/-- The bus after its last user is gone: mailboxes stay, and nothing more comes. -/
def close (b : Bus α) : Bus α := { b with channels := ∅, isOpen := false }

end Bus

/-- What is logged for each subscriber that misses a message. -/
def Bus.laggingWarning : String := "WARN subscriber mailbox full, dropping message"

/-- Why the bus refuses a message. -/
inductive BusError where
  /-- Every subscriber of the channel is full. -/
  | full (channel : String)
  deriving DecidableEq, Repr

/-- The wording of a refusal. -/
def BusError.message : BusError → String
  | .full channel => "subscriber mailbox full on channel " ++ channel

end PullIngest
