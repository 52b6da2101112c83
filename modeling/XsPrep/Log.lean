import XsPrep.Text.Basic

/-!
# Logs

Some computations say something on the way.  A logged value is the value
together with the messages, in the order they were given.
-/

namespace XsPrep

/-- A value and the messages on the way to it. -/
structure Logged (α : Type) where
  /-- The value. -/
  value : α
  /-- The messages. -/
  messages : List Text
deriving Repr

namespace Logged

instance : Monad Logged where
  pure a := ⟨a, []⟩
  bind x f := ⟨(f x.value).value, x.messages ++ (f x.value).messages⟩

@[simp] theorem value_pure {α : Type} (a : α) : (pure a : Logged α).value = a := rfl

@[simp] theorem messages_pure {α : Type} (a : α) : (pure a : Logged α).messages = [] := rfl

@[simp] theorem value_bind {α β : Type} (x : Logged α) (f : α → Logged β) :
    (x >>= f).value = (f x.value).value := rfl

@[simp] theorem messages_bind {α β : Type} (x : Logged α) (f : α → Logged β) :
    (x >>= f).messages = x.messages ++ (f x.value).messages := rfl

instance : LawfulMonad Logged :=
  LawfulMonad.mk' Logged
    (fun x => by simp [Functor.map])
    (fun a f => by simp [bind, pure])
    (fun x f g => by simp [bind])

/-- Gives a message. -/
def say (message : Text) : Logged Unit := ⟨(), [message]⟩

end Logged

/-- A message as it is written to a log: behind `mark`, and with a line end
unless it has one. -/
def logEntry (mark message : Text) : Text :=
  mark ++ message ++
    if Text.endsWith [Byte.newline] message then [] else [Byte.newline]

/-- The text of a log. -/
def logText (mark : Text) (messages : List Text) : Text := messages.flatMap (logEntry mark)

end XsPrep
