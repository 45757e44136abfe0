import Formulary.Code
import Formulary.Formula.Text
import Std.Data.HashMap

/-! # Lowering formulas to code

Every node has a slot for the outcome of lowering it, which is filled once and never changes.
Lowering a node lowers its operands first, so their slots fill up too, and what failed once keeps
failing. Only a node that is lowered by itself is held to a limit on its depth.
-/

namespace Formulary

/-- Why a formula could not be lowered. -/
inductive LoweringError where
  | malformed (fault : Malformation)
  | maxDepthExceeded (depth limit : Nat)
  /-- A node that failed before; the text is that of its formula. -/
  | notCompilable (text : String)
deriving DecidableEq, Repr

/-- The wording. -/
def LoweringError.message : LoweringError → String
  | malformed fault => fault.message
  | maxDepthExceeded depth limit =>
    "Expression depth " ++ toString depth ++ " exceeds the limit of " ++ toString limit
  | notCompilable text => "Subexpression '" ++ text ++ "' cannot be compiled"

/-- The outcome of lowering a node. -/
inductive Slot where
  | failed
  | ready (code : Code)

/-- The slots that are filled. -/
abbrev Slots := Std.HashMap Cell Slot

namespace Slots

/-- Fills a slot unless it is filled already. -/
def fill (slots : Slots) (cell : Cell) (slot : Slot) : Slots :=
  match slots[cell]? with
  | some _ => slots
  | none => slots.insert cell slot

/-- The code of a node that was lowered. -/
def code? (slots : Slots) (cell : Cell) : Option Code :=
  match slots[cell]? with
  | some (.ready code) => some code
  | _ => none

end Slots

/-- A step of lowering, which may fill slots whether it succeeds or not. -/
def Lowering (α : Type) : Type := Slots → Except LoweringError α × Slots

namespace Lowering

variable {α β : Type}

def pure (a : α) : Lowering α := fun slots => (.ok a, slots)

def fail (error : LoweringError) : Lowering α := fun slots => (.error error, slots)

/-- One step after another, up to the first that fails. -/
def bind (step : Lowering α) (next : α → Lowering β) : Lowering β := fun slots =>
  match step slots with
  | (.ok a, slots) => next a slots
  | (.error error, slots) => (.error error, slots)

instance : Monad Lowering where
  pure := pure
  bind := bind

/-- The outcome kept in a slot, or that of a step, which is kept from then on. -/
def once (cell : Cell) (text : String) (step : Lowering Code) : Lowering Code := fun slots =>
  match slots[cell]? with
  | some (.ready code) => (.ok code, slots)
  | some .failed => (.error (.notCompilable text), slots)
  | none =>
    match step slots with
    | (.ok code, slots) => (.ok code, slots.fill cell (.ready code))
    | (.error error, slots) => (.error error, slots.fill cell .failed)

/-- Code that keeps its result in the root of a layout. -/
def kept (layout : Layout) (step : Lowering Code) : Lowering Code := do
  let code ← step
  return .recorded layout.root code

end Lowering

namespace Formula

open Lowering (kept)

mutual

/-- The code of a node. -/
def lower (layout : Layout) : Formula → Lowering Code
  | constant value => .once layout.root value.literal (.pure (.constant value))
  | identifier name => .once layout.root name (.pure (.lookup name))
  | precompiled expression =>
    .once layout.root (precompiled expression).text (.pure (.precompiled expression))
  | apply operator native operands =>
    let fault (expected : OperandCount) : Lowering Code :=
      .fail (.malformed (.operandCount operator.symbol expected operands.length))
    let unnamed : Lowering Code := .fail (.malformed (.expectedIdentifier operator.symbol))
    .once layout.root (apply operator native operands).text <|
      match operator.form with
      | .generic =>
        match operands with
        | [operand] => do
          let operand ← kept (layout.below 0) (lower (layout.below 0) operand)
          return .unary operator operand
        | [left, right] => do
          let left ← kept (layout.below 0) (lower (layout.below 0) left)
          let right ← kept (layout.below 1) (lower (layout.below 1) right)
          return .binary operator left right
        | _ => fault .oneOrTwo
      | .or =>
        match operands with
        | [left, right] => do
          let left ← kept (layout.below 0) (lower (layout.below 0) left)
          let right ← kept (layout.below 1) (lower (layout.below 1) right)
          return .or left right
        | _ => fault (.exactly 2)
      | .and =>
        match operands with
        | [left, right] => do
          let left ← kept (layout.below 0) (lower (layout.below 0) left)
          let right ← kept (layout.below 1) (lower (layout.below 1) right)
          return .and left right
        | _ => fault (.exactly 2)
      | .parenthesis =>
        match operands with
        | [inner] => kept (layout.below 0) (lower (layout.below 0) inner)
        | _ => fault (.exactly 1)
      | .dot =>
        match operands with
        | [target, name] =>
          match name.identifier? with
          | none => unnamed
          | some name => do
            let target ← kept (layout.below 0) (lower (layout.below 0) target)
            return .member target name
        | _ => fault (.exactly 2)
      | .functionCall =>
        match operands with
        | name :: args =>
          match name.identifier? with
          | none => unnamed
          | some name => do
            let args ← lowerAll layout 1 args
            return .function native name args
        | _ => fault (.atLeast 1)
      | .methodCall =>
        match operands with
        | target :: name :: args =>
          match name.identifier? with
          | none => unnamed
          | some name => do
            let target ← kept (layout.below 0) (lower (layout.below 0) target)
            let args ← lowerAll layout 2 args
            return .method target name args
        | _ => fault (.atLeast 2)
      | .indexer =>
        match operands with
        | target :: first :: rest => do
          let target ← kept (layout.below 0) (lower (layout.below 0) target)
          let first ← kept (layout.below 1) (lower (layout.below 1) first)
          let rest ← lowerAll layout 2 rest
          return .index target (first :: rest)
        | _ => fault (.atLeast 2)
      | .log =>
        match operands with
        | [operand] => do
          let code ← kept (layout.below 0) (lower (layout.below 0) operand)
          return .log operand.text code
        | _ => fault (.exactly 1)
      | .dump =>
        match operands with
        | [operand] => return .dump ⟨operand, layout.below 0⟩
        | _ => fault (.exactly 1)

/-- The code of operands, the first of which stands at position `i`. -/
def lowerAll (layout : Layout) (i : Nat) : List Formula → Lowering (List Code)
  | [] => return []
  | operand :: rest => do
    let code ← kept (layout.below i) (lower (layout.below i) operand)
    let codes ← lowerAll layout (i + 1) rest
    return code :: codes

end

end Formula

/-- The depth up to which formulas are lowered unless settings say otherwise. -/
def defaultDepthLimit : Nat := 256

namespace Tree

/-- Lowers a tree that is not deeper than the limit. The limit does not matter to a tree that has
been lowered, or has failed to be. -/
def lower (tree : Tree) (limit : Nat) : Lowering Code := fun slots =>
  match slots[tree.cell]? with
  | some _ => tree.formula.lower tree.layout slots
  | none =>
    let depth := tree.formula.depth
    if limit < depth then
      (.error (.maxDepthExceeded depth limit), slots.fill tree.cell .failed)
    else tree.formula.lower tree.layout slots

end Tree

end Formulary
