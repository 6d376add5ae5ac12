import FactFlow.Program.Draft
import Mathlib.Data.List.Basic

/-!
# Drafts and the calls that draw them up

A draft is drawn up by calls: for a slot, for a block, or for an instruction in some block.  They
come in any order, and nothing is checked when they are made, so an instruction may name blocks and
values that do not exist, or do not exist yet.

`Call.request?` says what instruction a call asks for, and `Draft.make_cases` what each call does.
So a draft is a record of its calls (`Draft.entries_drawn`, `Draft.blockCount_drawn`,
`Draft.slots_drawn`; slots are counted with 32 bits), and each call for an instruction is answered
with the number under which the record has it (`Draft.answers_appended`).  No call gives a
destination to a terminator
(`Draft.dest_of_isTerminator`), which is the one thing that can be wrong only with a draft that was
not drawn up by calls.
-/

namespace FactFlow

/-- A call for a slot, a block or an instruction. -/
inductive Call where
  | slot
  | block
  | binary (b : BlockId) (op : BinaryOp) (lhs rhs : Value)
  | binaryInto (b : BlockId) (dest : Value) (op : BinaryOp) (lhs rhs : Value)
  | compare (b : BlockId) (pred : Predicate) (lhs rhs : Value)
  | assign (b : BlockId) (dest source : Value)
  | call (b : BlockId) (callee : String) (args : List Value)
  | phi (b : BlockId) (incoming : List Incoming)
  | jump (b target : BlockId)
  | branch (b : BlockId) (cond : Value) (onTrue onFalse : BlockId)
  | ret (b : BlockId) (value : Option Value)
  deriving DecidableEq, Repr

/-- What a call is answered with. -/
inductive Answer where
  | slot (v : Value)
  | block (b : BlockId)
  | inst (i : InstId)
  deriving DecidableEq, Repr

namespace Call

/-- The instruction that a call asks for. -/
def request? : Call → Option Entry
  | .slot => none
  | .block => none
  | .binary b op lhs rhs => some ⟨b, .binary op lhs rhs, none⟩
  | .binaryInto b dest op lhs rhs => some ⟨b, .binary op lhs rhs, some dest⟩
  | .compare b pred lhs rhs => some ⟨b, .compare pred lhs rhs, none⟩
  | .assign b dest source => some ⟨b, .copy source, some dest⟩
  | .call b callee args => some ⟨b, .call callee args, none⟩
  | .phi b incoming => some ⟨b, .phi incoming, none⟩
  | .jump b target => some ⟨b, .jump target, none⟩
  | .branch b cond onTrue onFalse => some ⟨b, .branch cond onTrue onFalse, none⟩
  | .ret b value => some ⟨b, .ret value, none⟩

/-- The instructions that calls ask for, in order. -/
def appended (calls : List Call) : List Entry := calls.filterMap request?

/-- The number of slots on record after calls: they are counted with 32 bits. -/
def slotCount (calls : List Call) : Nat := calls.count .slot % UInt32.size

@[simp] theorem request?_slot : request? .slot = none := rfl

@[simp] theorem request?_block : request? .block = none := rfl

theorem appended_cons (c : Call) (rest : List Call) :
    appended (c :: rest) = c.request?.toList ++ appended rest := by
  rw [appended, List.filterMap_cons]
  cases c.request? <;> rfl

end Call

namespace Draft

/-- Make a call. -/
def make (d : Draft) : Call → Draft × Answer
  | .slot => d.addSlot.map id .slot
  | .block => d.addBlock.map id .block
  | .binary b op lhs rhs => (d.binary b op lhs rhs).map id .inst
  | .binaryInto b dest op lhs rhs => (d.binaryInto b dest op lhs rhs).map id .inst
  | .compare b pred lhs rhs => (d.compare b pred lhs rhs).map id .inst
  | .assign b dest source => (d.assign b dest source).map id .inst
  | .call b callee args => (d.call b callee args).map id .inst
  | .phi b incoming => (d.phi b incoming).map id .inst
  | .jump b target => (d.jump b target).map id .inst
  | .branch b cond onTrue onFalse => (d.branch b cond onTrue onFalse).map id .inst
  | .ret b value => (d.ret b value).map id .inst

/-- Make calls one after another. -/
def run (d : Draft) : List Call → Draft × List Answer
  | [] => (d, [])
  | c :: rest =>
    let (d, answer) := d.make c
    let (d, answers) := d.run rest
    (d, answer :: answers)

/-- The draft that calls draw up. -/
def drawn (name : String) (params : Nat) (calls : List Call) : Draft :=
  ((new name params).run calls).1

/-- The answers to the calls that draw up a draft. -/
def answers (name : String) (params : Nat) (calls : List Call) : List Answer :=
  ((new name params).run calls).2

/-- **What a call does**: it counts a slot or a block, or puts the instruction that it asks for at
the end, and answers with the number of what it added. -/
theorem make_cases (d : Draft) (c : Call) :
    c = .slot ∧ d.make c = ({ d with slots := d.slots + 1 }, .slot (.slot d.slots.toNat)) ∨
      c = .block ∧
        d.make c = ({ d with blockCount := d.blockCount + 1 }, .block d.blockCount) ∨
      ∃ e, c.request? = some e ∧
        d.make c = ({ d with entries := d.entries ++ [e] }, .inst d.entries.length) := by
  cases c with
  | slot => exact .inl ⟨rfl, rfl⟩
  | block => exact .inr (.inl ⟨rfl, rfl⟩)
  | _ => exact .inr (.inr ⟨_, rfl, rfl⟩)

/-- **What calls leave behind**: more slots and blocks, and the instructions that they asked for. -/
theorem run_spec (d : Draft) (calls : List Call) :
    (d.run calls).1 =
      { d with
        slots := d.slots + UInt32.ofNat (calls.count .slot)
        blockCount := d.blockCount + calls.count .block
        entries := d.entries ++ Call.appended calls } := by
  induction calls generalizing d with
  | nil => simp [run, Call.appended]
  | cons c rest ih =>
    simp only [run, ih, Call.appended_cons]
    obtain ⟨rfl, hmake⟩ | ⟨rfl, hmake⟩ | ⟨e, he, hmake⟩ := d.make_cases c
    · have hcount : UInt32.ofNat (rest.count .slot + 1) = 1 + UInt32.ofNat (rest.count .slot) := by
        rw [UInt32.ofNat_add, UInt32.add_comm]
        rfl
      simp [hmake, hcount, UInt32.add_assoc]
    · simp [hmake, Nat.add_comm, Nat.add_left_comm]
    · have hslot : c ≠ .slot := by rintro rfl; cases he
      have hblock : c ≠ .block := by rintro rfl; cases he
      simp [hmake, he, hslot, hblock]

/-- The answers to calls for instructions are consecutive numbers. -/
theorem run_answers (d : Draft) (calls : List Call) :
    ((calls.zip (d.run calls).2).filter (·.1.request?.isSome)).map (·.2) =
      (List.range' d.entries.length (Call.appended calls).length).map .inst := by
  induction calls generalizing d with
  | nil => rfl
  | cons c rest ih =>
    simp only [run, List.zip_cons_cons, Call.appended_cons]
    obtain ⟨rfl, hmake⟩ | ⟨rfl, hmake⟩ | ⟨e, he, hmake⟩ := d.make_cases c
    · simp [hmake, ih]
    · simp [hmake, ih]
    · simp [hmake, ih, he, List.range'_succ]

variable {name : String} {params : Nat} {calls : List Call}

theorem params_drawn : (drawn name params calls).params = params := by
  simp [drawn, run_spec, new]

theorem entries_drawn : (drawn name params calls).entries = Call.appended calls := by
  simp [drawn, run_spec, new]

theorem blockCount_drawn : (drawn name params calls).blockCount = calls.count .block := by
  simp [drawn, run_spec, new]

theorem slots_drawn : (drawn name params calls).slots.toNat = Call.slotCount calls := by
  simp [drawn, run_spec, new, Call.slotCount]

theorem answers_appended :
    ((calls.zip (answers name params calls)).filter (·.1.request?.isSome)).map (·.2) =
      (List.range (Call.appended calls).length).map .inst := by
  rw [answers, run_answers, List.range_eq_range']
  rfl

/-- No call gives a destination to a terminator. -/
theorem dest_of_isTerminator {e : Entry} (he : e ∈ (drawn name params calls).entries)
    (hterm : e.kind.isTerminator = true) : e.dest = none := by
  rw [entries_drawn, Call.appended, List.mem_filterMap] at he
  obtain ⟨c, -, hc⟩ := he
  cases c with
  | slot => cases hc
  | block => cases hc
  | binaryInto => cases hc; cases hterm
  | assign => cases hc; cases hterm
  | _ => cases hc; rfl

end Draft

end FactFlow
