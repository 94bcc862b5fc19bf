import Mathlib.Data.Option.Basic
import CS536Labs.Foundations.CString

/-!
# `lab1/lib/parse_command.c`

The command tokenizer of the simple shells. `parseCommand` runs the transition table over the
command string with the locals of `parse_command`, then the code that ends a pending argument at
the end of the string. Its result is `none` when the program would store outside `argument`, and
otherwise what it leaves in `arguments`: pointers to the argument strings, then `NULL`.

Arguments are kept by value. The table never adds to an argument after closing it (the next
store comes after a `malloc`), so the string behind a stored pointer does not change.
-/

namespace CS536Labs.Lab1

/-- `ARGUMENT_SIZE`. -/
def argumentSize : ℕ := 4096

inductive State
  | lookForArg
  | inArg
  | inQuote
  | escapedInArg
  | escapedInQuotedArg
  deriving DecidableEq, Repr

inductive NextCharCategory
  | whitespace
  | doubleQuote
  | escape
  | others
  deriving DecidableEq, Repr

inductive Action
  | createArg
  | createAndAddToArg
  | addToArg
  | closeArg
  | ignore
  deriving DecidableEq, Repr

structure Effect where
  nextState : State
  action : Action
  deriving DecidableEq, Repr

/-- The table `TRANSITIONS`. -/
def transitions : State → NextCharCategory → Effect
  | .lookForArg, .whitespace => ⟨.lookForArg, .ignore⟩
  | .lookForArg, .doubleQuote => ⟨.inQuote, .createArg⟩
  | .lookForArg, .escape => ⟨.escapedInArg, .createArg⟩
  | .lookForArg, .others => ⟨.inArg, .createAndAddToArg⟩
  | .inArg, .whitespace => ⟨.lookForArg, .closeArg⟩
  | .inArg, .doubleQuote => ⟨.inQuote, .ignore⟩
  | .inArg, .escape => ⟨.escapedInArg, .ignore⟩
  | .inArg, .others => ⟨.inArg, .addToArg⟩
  | .inQuote, .whitespace => ⟨.inQuote, .addToArg⟩
  | .inQuote, .doubleQuote => ⟨.inArg, .ignore⟩
  | .inQuote, .escape => ⟨.escapedInQuotedArg, .ignore⟩
  | .inQuote, .others => ⟨.inQuote, .addToArg⟩
  | .escapedInArg, _ => ⟨.inArg, .addToArg⟩
  | .escapedInQuotedArg, _ => ⟨.inQuote, .addToArg⟩

def parseNextChar (c : UInt8) : NextCharCategory :=
  if c = 0x20 ∨ c = 0x09 ∨ c = 0x0a then .whitespace
  else if c = 0x22 then .doubleQuote
  else if c = 0x5c then .escape
  else .others

/-- The locals of `parse_command`. `argument` is `none` while it points to the literal `"\0"`,
and otherwise the bytes stored in the current `malloc`ed buffer, `argument_idx` of them. -/
structure Locals where
  effect : Effect
  state : State
  argument : Option (List UInt8)
  arguments : List (List UInt8)
  deriving DecidableEq, Repr

/-- One case of the `switch`. A store to `argument[argument_idx]` fails on the literal and past
the end of the buffer. -/
def Action.run (a : Action) (c : UInt8) (ℓ : Locals) : Option Locals :=
  match a with
  | .createArg => some { ℓ with argument := some [] }
  | .createAndAddToArg => some { ℓ with argument := some [c] }
  | .addToArg =>
    match ℓ.argument with
    | none => none
    | some buf =>
      if buf.length < argumentSize then some { ℓ with argument := some (buf ++ [c]) } else none
  | .closeArg =>
    match ℓ.argument with
    | none => none
    | some buf =>
      if buf.length < argumentSize then some { ℓ with arguments := ℓ.arguments ++ [buf] } else none
  | .ignore => some ℓ

/-- The body of the `while (*next_char)` loop. -/
def Locals.step (ℓ : Locals) (c : UInt8) : Option Locals :=
  let effect := transitions ℓ.state (parseNextChar c)
  (effect.action.run c { ℓ with effect }).map fun ℓ => { ℓ with state := effect.nextState }

/-- The contents of an argument vector: the strings, then `NULL`. -/
def argv (words : List (List UInt8)) : List (Option (List UInt8)) := words.map some ++ [none]

/-- The code after the loop: terminate the pending argument, append it, append `NULL`. -/
def Locals.finish (ℓ : Locals) : Option (List (Option (List UInt8))) :=
  let argument := ℓ.argument.getD []
  if argument.length < argumentSize then
    if ℓ.effect.action ≠ .closeArg ∧ argument.length ≠ 0 then
      some (argv (ℓ.arguments ++ [argument]))
    else some (argv ℓ.arguments)
  else none

/-- The locals on entry. `uninit` is what the uninitialised local `effect` holds. -/
def Locals.initial (uninit : Effect) : Locals := ⟨uninit, .lookForArg, none, []⟩

def parseCommand (uninit : Effect) (command : CString) : Option (List (Option (List UInt8))) :=
  (command.bytes.foldlM Locals.step (Locals.initial uninit)).bind Locals.finish

theorem argv_injective : Function.Injective argv := by
  intro ws ws' h
  exact List.map_injective_iff.mpr (Option.some_injective _) (List.append_cancel_right h)

end CS536Labs.Lab1
