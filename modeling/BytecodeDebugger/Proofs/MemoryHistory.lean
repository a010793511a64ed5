import BytecodeDebugger.Proofs.Failures
import Mathlib.Data.List.Induction
import Mathlib.Order.Bounds.Lattice

/-!
# Memories and the accesses made to them

A memory keeps the cells that were needed so far and grows when a write goes beyond them. What can be
observed of it is a bounded array: after any sequence of reads and writes, an access fails exactly if
its address is out of bounds, and then changes nothing; a cell reads as what was written to it last,
before any write as the argument that was put there, and as zero without one. The instructions of a
frame make no other use of its memory.

## Implementation notes

Where the kept cells end shows in the size alone. So everything else is said of `cell`, which does
not ask whether a cell is kept, and growing a memory changes no cell.

Arguments may lie out of bounds. They count for the size, but nothing reads them.
-/

namespace BytecodeDebugger

namespace Memory

/-! ## Cells -/

/-- The value of a cell, whether the memory keeps it or not. -/
def cell (m : Memory) (i : Nat) : Int32 :=
  m.cells[i]?.getD 0

section Cells

variable (m : Memory) (i j : Nat) (value : Int32)

theorem size_grow (size : Nat) : (m.grow size).size = max m.size size := by
  simp only [Memory.size, grow, Array.size_append, Array.size_replicate]
  omega

/-- Zeros are put where zeros were read. -/
theorem cell_grow (size : Nat) : (m.grow size).cell i = m.cell i := by
  rw [cell, cell, grow, Array.getElem?_append]
  split
  · rfl
  · rename_i hbeyond
    rw [Array.getElem?_eq_none (Nat.not_lt.mp hbeyond), Array.getElem?_replicate]
    split <;> rfl

theorem size_set : (m.set i value).size = max m.size (i + 1) := by
  rw [← size_grow, set, Memory.size, Array.size_setIfInBounds, Memory.size]

/-- A write fills the gap up to its cell and changes no other one. -/
theorem cell_set : (m.set i value).cell j = if i = j then value else m.cell j := by
  have hkept : i < (m.grow (i + 1)).cells.size := by
    have hsize := m.size_grow (i + 1)
    rw [Memory.size] at hsize
    omega
  rw [← m.cell_grow j (i + 1), cell, cell, set, Array.getElem?_setIfInBounds, if_pos hkept]
  split <;> rfl

end Cells

/-! ## Accesses -/

/-- The addresses in bounds. -/
def IsAddress (address : Int) : Prop :=
  0 ≤ address ∧ address < limit

instance (address : Int) : Decidable (IsAddress address) :=
  inferInstanceAs (Decidable (_ ∧ _))

/-- One access to a memory. -/
inductive Access where
  | read (address : Int)
  | write (address : Int) (value : Int32)
  deriving DecidableEq

namespace Access

/-- The address that is accessed. -/
def address : Access → Int
  | .read address => address
  | .write address _ => address

/-- The value that is written to an address, if one is. -/
def writtenAt? (address : Int) : Access → Option Int32
  | .read _ => none
  | .write other value => if other = address then some value else none

/-- The number of cells up to the one that is written, if one is. -/
def extent? : Access → Option Nat
  | .read _ => none
  | .write address _ => if IsAddress address then some (address.toNat + 1) else none

end Access

/-- One access, with its answer: the value for a read, nothing for a write. -/
def access (m : Memory) : Access → Except Fault (Option Int32) × Memory
  | .read address => ((m.read address).map some, m)
  | .write address value =>
    match m.write address value with
    | .error fault => (.error fault, m)
    | .ok after => (.ok none, after)

/-- A memory after a sequence of accesses. -/
def after (m : Memory) (history : List Access) : Memory :=
  history.foldl (fun m access => (m.access access).2) m

variable {m : Memory} {address : Int}

theorem index_of_isAddress (h : IsAddress address) : index address = .ok address.toNat :=
  if_pos h

theorem index_of_not_isAddress (h : ¬IsAddress address) :
    index address = .error (.invalidMemoryAddress address) :=
  if_neg h

theorem after_append (m : Memory) (history later : List Access) :
    m.after (history ++ later) = (m.after history).after later :=
  List.foldl_append

/-- What an access can do: fail out of bounds, read a cell, or set one. -/
theorem access_cases (m : Memory) (access : Access) :
    (¬IsAddress access.address ∧
        m.access access = (.error (.invalidMemoryAddress access.address), m)) ∨
      (∃ address, access = .read address ∧ IsAddress address ∧
        m.access access = (.ok (some (m.cell address.toNat)), m)) ∨
      ∃ address value, access = .write address value ∧ IsAddress address ∧
        m.access access = (.ok none, m.set address.toNat value) := by
  cases access with
  | read address =>
    rw [Memory.access, read]
    by_cases h : IsAddress address
    · rw [index_of_isAddress h]
      exact .inr (.inl ⟨address, rfl, h, rfl⟩)
    · rw [index_of_not_isAddress h]
      exact .inl ⟨h, rfl⟩
  | write address value =>
    rw [Memory.access, write]
    by_cases h : IsAddress address
    · rw [index_of_isAddress h]
      exact .inr (.inr ⟨address, value, rfl, h, rfl⟩)
    · rw [index_of_not_isAddress h]
      exact .inl ⟨h, rfl⟩

/-- An access fails exactly if it is out of bounds. -/
theorem access_eq_error_iff {access : Access} {fault : Fault} :
    (m.access access).1 = .error fault ↔
      ¬IsAddress access.address ∧ fault = .invalidMemoryAddress access.address := by
  obtain ⟨h, heq⟩ | ⟨address, rfl, h, heq⟩ | ⟨address, value, rfl, h, heq⟩ := m.access_cases access
  · simp [heq, h, eq_comm]
  · simp [heq, h, Access.address]
  · simp [heq, h, Access.address]

/-- An access that fails changes nothing. -/
theorem access_snd_of_error {access : Access} {fault : Fault}
    (hfails : (m.access access).1 = .error fault) : (m.access access).2 = m := by
  obtain ⟨-, heq⟩ | ⟨address, rfl, -, heq⟩ | ⟨address, value, rfl, -, heq⟩ := m.access_cases access
  · rw [heq]
  · rw [heq]
  · rw [heq] at hfails
    cases hfails

/-- A read is answered exactly if it is in bounds, with the value of the cell. -/
theorem access_read_eq_ok_iff {value : Int32} :
    (m.access (.read address)).1 = .ok (some value) ↔
      IsAddress address ∧ value = m.cell address.toNat := by
  obtain ⟨h, heq⟩ | ⟨_, ⟨⟩, h, heq⟩ | ⟨_, _, ⟨⟩, -, -⟩ := m.access_cases (.read address)
  · have hout : ¬IsAddress address := h
    simp [heq, hout]
  · simp [heq, h, eq_comm]

/-! ## Histories -/

/-- The value that was written last to an address. -/
def lastWrite? (address : Int) (history : List Access) : Option Int32 :=
  history.reverse.findSome? (Access.writtenAt? address)

/-- The number of the arguments, and for each write in bounds the number of cells up to it. -/
def extents (args : Array Int32) (history : List Access) : Set Nat :=
  {n | n = args.size ∨ ∃ access ∈ history, access.extent? = some n}

section Histories

variable (args : Array Int32) (history : List Access)

theorem lastWrite?_concat (access : Access) :
    lastWrite? address (history ++ [access]) =
      (access.writtenAt? address).or (lastWrite? address history) := by
  rw [lastWrite?, lastWrite?, List.reverse_concat, List.findSome?_cons]
  cases access.writtenAt? address <;> rfl

theorem extents_nil : extents args [] = {args.size} := by
  ext n
  simp [extents]

theorem extents_concat_of_eq_none {access : Access} (h : access.extent? = none) :
    extents args (history ++ [access]) = extents args history := by
  ext n
  simp [extents, or_and_right, exists_or, h]

theorem extents_concat_of_eq_some {access : Access} {size : Nat} (h : access.extent? = some size) :
    extents args (history ++ [access]) = insert size (extents args history) := by
  ext n
  simp [extents, or_and_right, exists_or, h, eq_comm, or_comm, or_left_comm]

end Histories

/-- What a memory is after some accesses to one that held the arguments. -/
structure Records (args : Array Int32) (history : List Access) (m : Memory) : Prop where
  /-- A cell in bounds has the value written last, else the argument, else zero. -/
  cell_eq : ∀ address, IsAddress address →
    m.cell address.toNat = (lastWrite? address history).getD (args[address.toNat]?.getD 0)
  /-- The cells reach as far as the arguments and the writes did. -/
  isGreatest_size : IsGreatest (extents args history) m.size

namespace Records

variable {args : Array Int32} {history : List Access}

theorem new (args : Array Int32) : Records args [] ⟨args⟩ where
  cell_eq _ _ := rfl
  isGreatest_size := by
    rw [extents_nil]
    exact isGreatest_singleton

/-- An access that writes nothing leaves everything as it is. -/
theorem concat_of_extent?_eq_none (h : Records args history m) {access : Access}
    (hextent : access.extent? = none) : Records args (history ++ [access]) m where
  cell_eq address haddress := by
    have hwritten : access.writtenAt? address = none := by
      cases access with
      | read other => rfl
      | write other value =>
        by_cases heq : other = address
        · simp [Access.extent?, heq, haddress] at hextent
        · simp [Access.writtenAt?, heq]
    rw [lastWrite?_concat, hwritten, Option.none_or]
    exact h.cell_eq address haddress
  isGreatest_size := by
    rw [extents_concat_of_eq_none _ _ hextent]
    exact h.isGreatest_size

theorem write (h : Records args history m) (haddress : IsAddress address) (value : Int32) :
    Records args (history ++ [.write address value]) (m.set address.toNat value) where
  cell_eq other hother := by
    -- Addresses in bounds are equal once their cells are.
    have hcell : address.toNat = other.toNat ↔ address = other := by
      have := haddress.1
      have := hother.1
      omega
    rw [lastWrite?_concat, cell_set, Access.writtenAt?]
    by_cases heq : address = other
    · rw [if_pos (hcell.mpr heq), if_pos heq, Option.some_or, Option.getD_some]
    · rw [if_neg (mt hcell.mp heq), if_neg heq, Option.none_or]
      exact h.cell_eq other hother
  isGreatest_size := by
    have hextent : (Access.write address value).extent? = some (address.toNat + 1) :=
      if_pos haddress
    rw [extents_concat_of_eq_some _ _ hextent, size_set, max_comm]
    exact h.isGreatest_size.insert (address.toNat + 1)

/-- The step lemma: one access adds itself to the record. -/
theorem access (h : Records args history m) (access : Access) :
    Records args (history ++ [access]) (m.access access).2 := by
  obtain ⟨hout, heq⟩ | ⟨address, rfl, -, heq⟩ | ⟨address, value, rfl, hin, heq⟩ :=
    m.access_cases access
  · rw [heq]
    refine h.concat_of_extent?_eq_none ?_
    cases access with
    | read address => rfl
    | write address value => exact if_neg hout
  · rw [heq]
    exact h.concat_of_extent?_eq_none rfl
  · rw [heq]
    exact h.write hin value

/-- The run lemma: a memory that held the arguments records the accesses made to it. -/
theorem after (args : Array Int32) (history : List Access) :
    Records args history ((⟨args⟩ : Memory).after history) := by
  induction history using List.reverseRecOn with
  | nil => exact new args
  | append_singleton history access ih =>
    rw [after_append]
    exact ih.access access

end Records

end Memory

/-! ## Instructions -/

namespace Execute

open Memory (Access)

/-- The access that an instruction makes to the memory of its frame, if it finds its operands. -/
def access? (i : Instruction) (base : Nat) (stack : Operands) : Option Access :=
  match i.op, stack.pop base with
  | .read, .ok (address, _) => some (.read (address.toInt + i.immediate.toInt))
  | .write, .ok (address, rest) =>
    match rest.peek base with
    | .error _ => none
    | .ok value => some (.write (address.toInt + i.immediate.toInt) value)
  | _, _ => none

/-- The effect of an instruction that makes an access to the memory of a frame. -/
structure Performs (access : Access) (frame : Frame) (effect : Effect) : Prop where
  frame_eq : effect.frame = { frame with memory := (frame.memory.access access).2 }
  /-- The instruction fails as the access does, and for no other reason. -/
  outcome_eq_error_iff : ∀ fault,
    effect.outcome = .error fault ↔ (frame.memory.access access).1 = .error fault
  /-- What was read is pushed. -/
  top?_eq : ∀ value,
    (frame.memory.access access).1 = .ok (some value) → effect.stack.top? = some value

variable {i : Instruction} {frame : Frame} {stack rest : Operands} {address value : Int32}
  {access : Access}

theorem Performs.of_error {fault : Fault}
    (haccess : frame.memory.access access = (.error fault, frame.memory)) :
    Performs access frame ⟨.error fault, frame, stack⟩ where
  frame_eq := by rw [haccess]
  outcome_eq_error_iff _ := by simp [haccess]
  top?_eq _ := by simp [haccess]

theorem Performs.of_ok {answer : Option Int32} {memory : Memory} {outcome : Outcome}
    (haccess : frame.memory.access access = (.ok answer, memory))
    (htop : ∀ value, answer = some value → stack.top? = some value) :
    Performs access frame ⟨.ok outcome, { frame with memory }, stack⟩ where
  frame_eq := by rw [haccess]
  outcome_eq_error_iff _ := by simp [haccess]
  top?_eq value hvalue := htop value (by simpa [haccess] using hvalue)

theorem performs_read (hop : i.op = .read)
    (hpop : stack.pop frame.stackBase = .ok (address, rest)) :
    Performs (.read (address.toInt + i.immediate.toInt)) frame (execute i frame stack) := by
  simp only [execute, hop, read, hpop]
  cases hread : frame.memory.read (address.toInt + i.immediate.toInt) with
  | error fault =>
    refine .of_error ?_
    rw [Memory.access, hread]
    rfl
  | ok value =>
    have haccess : frame.memory.access (.read (address.toInt + i.immediate.toInt)) =
        (.ok (some value), frame.memory) := by
      rw [Memory.access, hread]
      rfl
    refine .of_ok haccess fun other heq => ?_
    cases heq
    simp [Operands.top?, Operands.push]

theorem performs_write (hop : i.op = .write)
    (hpop : stack.pop frame.stackBase = .ok (address, rest))
    (hpeek : rest.peek frame.stackBase = .ok value) :
    Performs (.write (address.toInt + i.immediate.toInt) value) frame (execute i frame stack) := by
  simp only [execute, hop, write, hpop, hpeek]
  cases hwrite : frame.memory.write (address.toInt + i.immediate.toInt) value with
  | error fault =>
    refine .of_error ?_
    rw [Memory.access, hwrite]
  | ok after =>
    have haccess : frame.memory.access (.write (address.toInt + i.immediate.toInt) value) =
        (.ok none, after) := by
      rw [Memory.access, hwrite]
    refine .of_ok haccess fun other heq => ?_
    cases heq

/-- An instruction that makes an access has the effect of the access. -/
theorem performs_of_access? (h : access? i frame.stackBase stack = some access) :
    Performs access frame (execute i frame stack) := by
  rw [access?] at h
  split at h
  · rename_i address rest hop hpop
    cases h
    exact performs_read hop hpop
  · rename_i address rest hop hpop
    split at h
    · cases h
    · rename_i value hpeek
      cases h
      exact performs_write hop hpop hpeek
  · cases h

/-- An instruction that makes no access leaves its frame as it is. -/
theorem frame_execute_of_access?_eq_none (h : access? i frame.stackBase stack = none) :
    (execute i frame stack).frame = frame := by
  by_cases hop : i.op = .write
  · simp only [execute, hop, write]
    rw [access?, hop] at h
    split
    · rfl
    · rename_i address rest hpop
      rw [hpop] at h
      split
      · rfl
      · rename_i value hpeek
        simp [hpeek] at h
  · exact frame_execute_of_ne_write i frame stack hop

/-- An instruction adds its access, if it makes one, to those made to the memory of its frame. -/
theorem frame_execute_eq (i : Instruction) (frame : Frame) (stack : Operands) :
    (execute i frame stack).frame =
      { frame with memory := frame.memory.after (access? i frame.stackBase stack).toList } := by
  cases h : access? i frame.stackBase stack with
  | none => exact frame_execute_of_access?_eq_none h
  | some access => exact (performs_of_access? h).frame_eq

end Execute

/-! ## Main statement -/

namespace Memory

/-- After any sequence of accesses to a memory that held some arguments, an access fails exactly if
its address is negative or has more than twenty bits, and an access that fails changes nothing. A
read in bounds gives the value written last to the address, else the argument with that number, else
zero. The size is the greatest of the number of arguments and, for every write in bounds, the number
of cells up to the one written. An instruction that is executed in a frame with this memory makes at
most one further access: it changes nothing else of the frame, fails as the access does, and pushes
what it read. -/
theorem accesses_follow_history (args : Array Int32) (history : List Access) :
    let m := (⟨args⟩ : Memory).after history
    (∀ access fault, (m.access access).1 = .error fault ↔
      (access.address < 0 ∨ 0x100000 ≤ access.address) ∧
        fault = .invalidMemoryAddress access.address) ∧
    (∀ access fault, (m.access access).1 = .error fault → (m.access access).2 = m) ∧
    (∀ address value, (m.access (.read address)).1 = .ok (some value) ↔
      (0 ≤ address ∧ address < 0x100000) ∧
        value = (lastWrite? address history).getD (args[address.toNat]?.getD 0)) ∧
    IsGreatest (extents args history) m.size ∧
    ∀ (i : Instruction) (frame : Frame) (stack : Operands), frame.memory = m →
      (execute i frame stack).frame = { frame with
        memory := (⟨args⟩ : Memory).after
          (history ++ (Execute.access? i frame.stackBase stack).toList) } ∧
      ∀ access, Execute.access? i frame.stackBase stack = some access →
        (∀ fault, (execute i frame stack).outcome = .error fault ↔
          (m.access access).1 = .error fault) ∧
        ∀ value, (m.access access).1 = .ok (some value) →
          (execute i frame stack).stack.top? = some value := by
  intro m
  have hrecords : Records args history m := Records.after args history
  refine ⟨fun access fault => ?_, fun access fault => access_snd_of_error,
    fun address value => ?_, hrecords.isGreatest_size, fun i frame stack hmemory => ⟨?_, ?_⟩⟩
  · have hout : ¬IsAddress access.address ↔ access.address < 0 ∨ 0x100000 ≤ access.address := by
      unfold IsAddress limit
      omega
    rw [access_eq_error_iff, hout]
  · rw [access_read_eq_ok_iff]
    exact and_congr_right fun haddress => by rw [hrecords.cell_eq address haddress]
  · rw [Execute.frame_execute_eq, hmemory, after_append]
  · intro access haccess
    have hperforms := Execute.performs_of_access? haccess
    rw [← hmemory]
    exact ⟨hperforms.outcome_eq_error_iff, hperforms.top?_eq⟩

/-- A write beyond the end fills the gap with zeros, and one out of bounds has no effect. -/
example : ((⟨#[3]⟩ : Memory).after [.write 4 9, .write (-2) 1, .read 7]).cells = #[3, 0, 0, 0, 9] := by
  decide

end Memory

end BytecodeDebugger
