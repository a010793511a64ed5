import BytecodeDebugger.Listing
import BytecodeDebugger.Proofs.Patching

/-!
# Listings in limited room

A listing that does not fit into its sink is cut off where the sink is full: what the sink has taken
is the beginning of the whole listing, and the writer is told of the refusal. The whole listing is
that of the program as it was written, whatever is patched.

## Implementation notes

A listing is written by many small writes, and between them source files are read and kept. Which
files are read, and what is written, depends on the files kept so far and not on the sink. So each
part of the listing streams: it is as good as one write of all its bytes, and parts that stream one
after the other do so together.
-/

namespace BytecodeDebugger

/-! ## Sinks -/

namespace Sink

/-- The sink has room for so many bytes. -/
def HasRoom (s : Sink) (n : Nat) : Prop :=
  ∀ room, s.room = some room → n ≤ room

/-- The sink after taking as many of the bytes as it has room for. -/
def receive (s : Sink) (bytes : ByteArray) : Sink :=
  match s.room with
  | none => ⟨none, s.written ++ bytes⟩
  | some room => ⟨some (room - bytes.size), s.written ++ bytes.extract 0 room⟩

variable {s : Sink} {a b : ByteArray}

/-- A write takes all bytes if there is room for them. -/
theorem put_of_hasRoom {text : String} (h : s.HasRoom text.toUTF8.size) :
    s.put text = (true, s.receive text.toUTF8) := by
  obtain ⟨room, written⟩ := s
  cases room with
  | none => rfl
  | some room => exact congrArg (·, _) (decide_eq_true (h room rfl))

/-- A write takes what there is room for, and tells if that was not all. -/
theorem put_of_not_hasRoom {text : String} (h : ¬s.HasRoom text.toUTF8.size) :
    s.put text = (false, s.receive text.toUTF8) := by
  obtain ⟨room, written⟩ := s
  cases room with
  | none => exact absurd nofun h
  | some room =>
    refine congrArg (·, _) (decide_eq_false ?_)
    intro hle
    apply h
    rintro _ ⟨⟩
    exact hle

/-- Two writes are as good as one. -/
theorem receive_receive (s : Sink) (a b : ByteArray) :
    (s.receive a).receive b = s.receive (a ++ b) := by
  obtain ⟨room, written⟩ := s
  cases room with
  | none => simp only [receive, ByteArray.append_assoc]
  | some room =>
    simp only [receive, ByteArray.append_assoc, ByteArray.extract_append, ByteArray.size_append,
      Nat.zero_sub, Nat.sub_sub]

theorem hasRoom_append :
    s.HasRoom (a ++ b).size ↔ s.HasRoom a.size ∧ (s.receive a).HasRoom b.size := by
  obtain ⟨room, written⟩ := s
  cases room with
  | none => simp [HasRoom, receive]
  | some room =>
    simp only [HasRoom, receive, Option.some.injEq, forall_eq', ByteArray.size_append]
    omega

theorem receive_empty (s : Sink) : s.receive .empty = s := by
  obtain ⟨room, written⟩ := s
  cases room with
  | none => simp [receive]
  | some room => simp [receive, ByteArray.extract_eq_empty_iff.mpr]

/-- A full sink takes nothing more. -/
theorem receive_receive_of_not_hasRoom (h : ¬s.HasRoom a.size) :
    (s.receive a).receive b = s.receive a := by
  obtain ⟨room, written⟩ := s
  cases room with
  | none => exact absurd nofun h
  | some room =>
    simp only [HasRoom, Option.some.injEq, forall_eq', Nat.not_le] at h
    have hfull : room - a.size = 0 := by omega
    simp [receive, hfull]

end Sink

namespace Listing

/-! ## Streaming -/

/-- Writing with some files read is as good as one write of these bytes, after which these files
are read. -/
structure Writes (action : Writer → Written) (known : SortedMap String (Option (List String)))
    (bytes : ByteArray) (known' : SortedMap String (Option (List String))) : Prop where
  accepted (sink : Sink) : sink.HasRoom bytes.size →
    action ⟨sink, known⟩ = .ok ⟨sink.receive bytes, known'⟩
  refused (sink : Sink) : ¬sink.HasRoom bytes.size →
    ∃ known'', action ⟨sink, known⟩ = .error ⟨sink.receive bytes, known''⟩

/-- What is written depends on the files read so far and not on the sink. -/
def Streams (action : Writer → Written) : Prop :=
  ∀ known, ∃ bytes known', Writes action known bytes known'

theorem streams_put (text : String) : Streams (·.put text) := by
  intro known
  refine ⟨text.toUTF8, known, ?_, ?_⟩
  · intro sink hroom
    simp only [Writer.put, Sink.put_of_hasRoom hroom]
  · intro sink hroom
    exact ⟨known, by simp only [Writer.put, Sink.put_of_not_hasRoom hroom]⟩

theorem streams_ok : Streams .ok := by
  intro known
  refine ⟨.empty, known, ?_, ?_⟩
  · intro sink _
    rw [Sink.receive_empty]
  · intro sink hroom
    exact absurd (fun _ _ => Nat.zero_le _) hroom

variable {first second : Writer → Written}

/-- What streams one after the other streams together. -/
theorem Streams.bind (hfirst : Streams first) (hsecond : Streams second) :
    Streams fun w => first w >>= second := by
  intro known
  obtain ⟨a, known', ha⟩ := hfirst known
  obtain ⟨b, known'', hb⟩ := hsecond known'
  refine ⟨a ++ b, known'', ?_, ?_⟩
  · intro sink hroom
    obtain ⟨hrooma, hroomb⟩ := Sink.hasRoom_append.mp hroom
    rw [ha.accepted sink hrooma, ← Sink.receive_receive]
    exact hb.accepted _ hroomb
  · intro sink hroom
    rw [← Sink.receive_receive]
    by_cases hrooma : sink.HasRoom a.size
    · have hroomb : ¬(sink.receive a).HasRoom b.size := fun h =>
        hroom (Sink.hasRoom_append.mpr ⟨hrooma, h⟩)
      rw [ha.accepted sink hrooma]
      exact hb.refused _ hroomb
    · -- The second part is not even begun, which a full sink cannot tell from its being written.
      obtain ⟨known₁, hrefused⟩ := ha.refused sink hrooma
      refine ⟨known₁, ?_⟩
      rw [hrefused, Sink.receive_receive_of_not_hasRoom hrooma]
      rfl

variable (files : FileSystem)

/-- Reading a source file has no dealings with the sink. -/
theorem source_sink (path : String) (known : SortedMap String (Option (List String))) :
    ∃ lines known', ∀ sink, Writer.source files path ⟨sink, known⟩ = (lines, ⟨sink, known'⟩) := by
  unfold Writer.source
  split
  · exact ⟨none, known, fun _ => rfl⟩
  · dsimp only
    cases known.get? path with
    | none => exact ⟨_, _, fun _ => rfl⟩
    | some lines => exact ⟨lines, known, fun _ => rfl⟩

/-- What is written with the text of a span streams if it does with every text. -/
theorem streams_snippet (span : SourceSpan) {action : String → Writer → Written}
    (h : ∀ shown, Streams (action shown)) :
    Streams fun w => action (snippet files span w).1 (snippet files span w).2 := by
  intro known
  obtain ⟨lines, known', hsource⟩ := source_sink files span.file known
  have hsnippet (sink : Sink) : snippet files span ⟨sink, known⟩ =
      ((lines.bind fun lines => excerpt? lines span).getD (positions span), ⟨sink, known'⟩) := by
    simp only [snippet, hsource]
  obtain ⟨bytes, known'', hbytes⟩ := h _ known'
  refine ⟨bytes, known'', ?_, ?_⟩
  · intro sink hroom
    rw [hsnippet]
    exact hbytes.accepted sink hroom
  · intro sink hroom
    rw [hsnippet]
    exact hbytes.refused sink hroom

theorem streams_writeInstruction (r : Routine) (marker : Option Nat) (address : Nat)
    (i : Instruction) : Streams (writeInstruction files r marker address i) := by
  unfold writeInstruction
  apply (streams_put _).bind
  cases r.spanAt? address with
  | none => exact streams_ok.bind (streams_put _)
  | some span =>
    exact streams_snippet files span fun shown => (streams_put _).bind (streams_put _)

theorem streams_writeInstructions (r : Routine) (marker : Option Nat) (is : List Instruction) :
    ∀ address, Streams (writeInstructions files r marker address is) := by
  induction is with
  | nil => exact fun _ => streams_ok
  | cons i is ih =>
    exact fun address => (streams_writeInstruction files r marker address i).bind (ih (address + 1))

theorem streams_writeRoutine (name : String) (index : Nat) (r : Routine) (marker : Option Nat) :
    Streams (writeRoutine files name index r marker) :=
  (streams_put _).bind ((streams_writeInstructions files r marker _ 0).bind (streams_put _))

theorem streams_writeRoutines (p : Program) (rs : List Routine) :
    ∀ index, Streams (writeRoutines files p index rs) := by
  induction rs with
  | nil => exact fun _ => streams_ok
  | cons r rs ih =>
    exact fun index => (streams_writeRoutine files _ index r none).bind (ih (index + 1))

theorem streams_writeProgram (p : Program) : Streams (writeProgram files p) :=
  streams_writeRoutines files p _ 0

/-! ## Patches -/

/-- Of a routine, the lines of instructions need the spans only. -/
theorem writeInstructions_unpatched (r : Routine) (marker : Option Nat) (is : List Instruction) :
    ∀ address, writeInstructions files r.unpatched marker address is =
      writeInstructions files r marker address is := by
  induction is with
  | nil => exact fun _ => rfl
  | cons i is ih =>
    intro address
    funext w
    simp only [writeInstructions, ih]
    rfl

/-- A listing shows each routine as it was written. -/
theorem writeRoutine_unpatched (name : String) (index : Nat) (r : Routine) (marker : Option Nat) :
    writeRoutine files name index r.unpatched marker = writeRoutine files name index r marker := by
  have hcode : r.unpatched.code.instructions = r.code.instructions :=
    Code.instructions_ofInstructions _
  funext w
  simp only [writeRoutine, hcode, writeInstructions_unpatched]

theorem writeRoutines_unpatched (p : Program) (rs : List Routine) :
    ∀ index, writeRoutines files p.unpatched index (rs.map Routine.unpatched) =
      writeRoutines files p index rs := by
  induction rs with
  | nil => exact fun _ => rfl
  | cons r rs ih =>
    intro index
    funext w
    simp only [List.map_cons, writeRoutines, writeRoutine_unpatched, ih]
    rfl

theorem writeProgram_unpatched (p : Program) :
    writeProgram files p.unpatched = writeProgram files p := by
  funext w
  unfold writeProgram
  rw [← writeRoutines_unpatched files p]
  simp [Program.unpatched]

/-- The listing of a patched program is that of the program as it was written. -/
theorem writeProgram_patch (p : Program) (place : Location) :
    writeProgram files (p.patch place).2 = writeProgram files p := by
  rw [← writeProgram_unpatched, Program.unpatched_patch, writeProgram_unpatched]

theorem writeProgram_foldl_patch (places : List Location) :
    ∀ p : Program, writeProgram files (places.foldl (fun p place => (p.patch place).2) p) =
      writeProgram files p := by
  induction places with
  | nil => exact fun _ => rfl
  | cons place places ih =>
    intro p
    rw [List.foldl_cons, ih, writeProgram_patch]

/-! ## Limited room -/

/-- In limited room, what streams leaves as many of its bytes as there is room for, and it fails if
these are not all. -/
theorem Streams.limited {action : Writer → Written} (h : Streams action) (room : Nat) :
    ∃ whole : Writer, action {} = .ok whole ∧
      (Written.writer (action { sink := { room := some room } })).sink.written =
        whole.sink.written.extract 0 (min room whole.sink.written.size) ∧
      ((∃ w, action { sink := { room := some room } } = .error w) ↔
        room < whole.sink.written.size) := by
  obtain ⟨bytes, known, hbytes⟩ := h ∅
  have hall : (Sink.receive {} bytes).written = bytes := ByteArray.empty_append
  have hcut : (Sink.receive { room := some room } bytes).written =
      bytes.extract 0 (min room bytes.size) := by
    calc (Sink.receive { room := some room } bytes).written
      _ = bytes.extract 0 room := ByteArray.empty_append
      _ = (bytes.extract 0 bytes.size).extract 0 room := by rw [ByteArray.extract_zero_size]
      _ = bytes.extract 0 (min room bytes.size) := by
        rw [ByteArray.extract_extract, Nat.zero_add, Nat.zero_add]
  have hfits : Sink.HasRoom { room := some room } bytes.size ↔ bytes.size ≤ room := by
    simp [Sink.HasRoom]
  refine ⟨⟨Sink.receive {} bytes, known⟩, hbytes.accepted {} nofun, ?_⟩
  rw [hall]
  by_cases hroom : bytes.size ≤ room
  · rw [hbytes.accepted _ (hfits.mpr hroom)]
    exact ⟨hcut, nofun, fun hlt => absurd hroom (Nat.not_le.mpr hlt)⟩
  · obtain ⟨known', hrefused⟩ := hbytes.refused _ (mt hfits.mp hroom)
    rw [hrefused]
    exact ⟨hcut, fun _ => Nat.not_le.mp hroom, fun _ => ⟨_, rfl⟩⟩

/-- However a program is patched, its listing in limited room is as much of the listing of the
program as it was written as there is room for, and it fails if that is not all. -/
theorem writeProgram_limited (p : Program) (places : List Location) (room : Nat) :
    ∃ whole : Writer, writeProgram files p.unpatched {} = .ok whole ∧
      let answer := writeProgram files (places.foldl (fun p place => (p.patch place).2) p)
        { sink := { room := some room } }
      (Written.writer answer).sink.written =
          whole.sink.written.extract 0 (min room whole.sink.written.size) ∧
        ((∃ w, answer = .error w) ↔ room < whole.sink.written.size) := by
  rw [writeProgram_foldl_patch, writeProgram_unpatched]
  exact (streams_writeProgram files p).limited room

end Listing

end BytecodeDebugger
