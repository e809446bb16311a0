import NetworkSimulator.Library.Machine
import NetworkSimulator.Simulator.Monitor
import NetworkSimulator.Simulator.ReadLine

/-! `read_line` takes the lines of a stream one by one, in whatever pieces they are
read. With at most four bytes a piece, what it leaves behind is too short to hold
another line of the monitor. -/

namespace NetworkSimulator.Simulator

theorem Chunk.c_string_eq {chunk : Chunk} (nul_free : '\x00' ∉ chunk.bytes) : chunk.c_string = chunk.bytes := by
  apply List.takeWhile_eq_self_iff.mpr
  intro byte member
  exact decide_eq_true (ne_of_mem_of_not_mem member nul_free)

theorem Chunk.c_string_length_le (chunk : Chunk) : chunk.c_string.length ≤ sizeof_BUFF_SIZE :=
  (List.takeWhile_prefix _).length_le.trans chunk.bound

section
variable {arriving rest : List Chunk} {buffer result : List Char}

theorem fill_exists (nul_free : '\x00' ∉ arriving.flatMap Chunk.bytes)
    (ends : '\n' ∈ buffer ++ arriving.flatMap Chunk.bytes) :
    ∃ result rest, fill buffer arriving = some (result, rest) ∧ '\n' ∈ result := by
  induction arriving generalizing buffer with
  | nil =>
    have found : '\n' ∈ buffer := by simpa using ends
    exact ⟨buffer, [], if_pos found, found⟩
  | cons recv_buff arriving ih =>
    simp only [List.flatMap_cons, List.mem_append, not_or] at nul_free
    by_cases found : '\n' ∈ buffer
    · exact ⟨buffer, recv_buff :: arriving, if_pos found, found⟩
    · rw [fill, if_neg found, Chunk.c_string_eq nul_free.1]
      apply ih nul_free.2
      simpa using ends

/-- The pieces that are read are appended to the buffer. -/
theorem fill_consumes (nul_free : '\x00' ∉ arriving.flatMap Chunk.bytes) (filled : fill buffer arriving = some (result, rest)) :
    ∃ consumed, arriving = consumed ++ rest ∧ result = buffer ++ consumed.flatMap Chunk.bytes := by
  induction arriving generalizing buffer with
  | nil =>
    unfold fill at filled
    split at filled
    · cases filled
      exact ⟨[], rfl, by simp⟩
    · cases filled
  | cons recv_buff arriving ih =>
    simp only [List.flatMap_cons, List.mem_append, not_or] at nul_free
    unfold fill at filled
    split at filled
    · cases filled
      exact ⟨[], rfl, by simp⟩
    · obtain ⟨consumed, rfl, rfl⟩ := ih nul_free.2 filled
      exact ⟨recv_buff :: consumed, rfl, by simp [Chunk.c_string_eq nul_free.1]⟩

/-- The newline comes with the last piece that is read. -/
theorem fill_last (unfinished : '\n' ∉ buffer) (filled : fill buffer arriving = some (result, rest)) :
    ∃ before last, result = before ++ last ∧ '\n' ∉ before ∧ last.length ≤ sizeof_BUFF_SIZE := by
  induction arriving generalizing buffer with
  | nil =>
    rw [fill, if_neg unfinished] at filled
    cases filled
  | cons recv_buff arriving ih =>
    rw [fill, if_neg unfinished] at filled
    by_cases found : '\n' ∈ buffer ++ recv_buff.c_string
    · have done : fill (buffer ++ recv_buff.c_string) arriving = some (buffer ++ recv_buff.c_string, arriving) := by
        cases arriving <;> exact if_pos found
      cases done.symm.trans filled
      exact ⟨buffer, recv_buff.c_string, rfl, unfinished, recv_buff.c_string_length_le⟩
    · exact ih found filled

/-- The reads of a connection and what they make of its buffer are the same. -/
theorem fill_reads {connection : Connection} {coming : List Char} (filled : fill connection.buffer arriving = some (result, rest))
    (socket : connection.socket = arriving.flatMap Chunk.bytes ++ coming) :
    ∃ counts, Machine.run Connection.read connection counts =
      some { connection with buffer := result, socket := rest.flatMap Chunk.bytes ++ coming } := by
  induction arriving generalizing connection with
  | nil =>
    unfold fill at filled
    split at filled
    · cases filled
      exact ⟨[], by rw [← socket]; rfl⟩
    · cases filled
  | cons recv_buff arriving ih =>
    unfold fill at filled
    split at filled
    · cases filled
      exact ⟨[], by rw [← socket]; rfl⟩
    next unfinished =>
      have positive := List.length_pos_iff.mpr recv_buff.nonempty
      have bound : recv_buff.bytes.length ≤ 4 := recv_buff.bound
      have shape : connection.socket = recv_buff.bytes ++ (arriving.flatMap Chunk.bytes ++ coming) := by
        simpa using socket
      have taken : connection.read recv_buff.bytes.length = some { connection with
          buffer := connection.buffer ++ recv_buff.c_string, socket := arriving.flatMap Chunk.bytes ++ coming } := by
        rw [Connection.read, if_neg unfinished, if_pos ⟨positive, bound, by simp [shape]⟩, shape, List.take_left,
          List.drop_left]
        rfl
      obtain ⟨counts, ran⟩ := @ih { connection with
          buffer := connection.buffer ++ recv_buff.c_string, socket := arriving.flatMap Chunk.bytes ++ coming } filled rfl
      exact ⟨recv_buff.bytes.length :: counts, (Machine.run_cons_iff Connection.read).mpr ⟨_, taken, ran⟩⟩

end

namespace Reader
section
variable {reader next : Reader} {socket : Int}

/-- What a call does: it reads some pieces, cuts one line off, and keeps the rest. -/
theorem read_line_effect (nul_free : '\x00' ∉ (reader.arriving socket).flatMap Chunk.bytes)
    (done : reader.read_line socket = some next) :
    (∃ consumed response, reader.arriving socket = consumed ++ next.arriving socket ∧
      reader.qmp_socket_to_buffers socket ++ consumed.flatMap Chunk.bytes =
        response ++ '\n' :: next.qmp_socket_to_buffers socket ∧
      '\n' ∉ response ∧ next.responses socket = reader.responses socket ++ [response]) ∧
    ∀ other, other ≠ socket → next.qmp_socket_to_buffers other = reader.qmp_socket_to_buffers other ∧
      next.arriving other = reader.arriving other ∧ next.responses other = reader.responses other := by
  simp only [read_line, Option.bind_eq_bind, Option.bind_eq_some_iff] at done
  obtain ⟨⟨result, rest⟩, filled, ⟨response, buffer⟩, found, same⟩ := done
  cases same
  obtain ⟨consumed, arrived, rfl⟩ := fill_consumes nul_free filled
  obtain ⟨line, outside⟩ := Lines.first_split found
  constructor
  · refine ⟨consumed, response, ?_, ?_, outside, Function.update_self ..⟩
    · simpa only [Function.update_self] using arrived
    · simpa only [Function.update_self] using line
  · intro other different
    simp only [Function.update_of_ne different, and_self]

/-- A call does to its socket what a connection does in single reads and the end of
`read_line`. -/
theorem read_line_connection {connection : Connection} {coming : List Char}
    (buffer : connection.buffer = reader.qmp_socket_to_buffers socket)
    (stream : connection.socket = (reader.arriving socket).flatMap Chunk.bytes ++ coming)
    (done : reader.read_line socket = some next) :
    ∃ counts middle response after, Machine.run Connection.read connection counts = some middle ∧
      middle.read_line = some (response, after) ∧ next.responses socket = reader.responses socket ++ [response] ∧
      after.buffer = next.qmp_socket_to_buffers socket ∧
      after.socket = (next.arriving socket).flatMap Chunk.bytes ++ coming := by
  simp only [read_line, Option.bind_eq_bind, Option.bind_eq_some_iff] at done
  obtain ⟨⟨result, rest⟩, filled, ⟨response, left⟩, found, same⟩ := done
  cases same
  rw [← buffer] at filled
  obtain ⟨counts, ran⟩ := fill_reads filled stream
  refine ⟨counts, _, response, { connection with
    buffer := left, socket := rest.flatMap Chunk.bytes ++ coming, lines := connection.lines.tail }, ran, ?_, ?_, ?_, ?_⟩
  · simp only [Connection.read_line, found, Option.bind_eq_bind, Option.bind_some]
  · exact Function.update_self ..
  · simp only [Function.update_self]
  · simp only [Function.update_self]

theorem read_line_exists (nul_free : '\x00' ∉ (reader.arriving socket).flatMap Chunk.bytes)
    (ends : '\n' ∈ reader.qmp_socket_to_buffers socket ++ (reader.arriving socket).flatMap Chunk.bytes) :
    ∃ next, reader.read_line socket = some next := by
  obtain ⟨result, rest, filled, found⟩ := fill_exists nul_free ends
  obtain ⟨response, buffer, first⟩ := Lines.first_exists found
  simp only [read_line, filled, first, Option.bind_eq_bind, Option.bind_some]
  exact ⟨_, rfl⟩

/-- No call leaves more than three bytes in a buffer without a newline. -/
theorem read_line_leftover (unfinished : '\n' ∉ reader.qmp_socket_to_buffers socket)
    (done : reader.read_line socket = some next) : (next.qmp_socket_to_buffers socket).length ≤ 3 := by
  simp only [read_line, Option.bind_eq_bind, Option.bind_eq_some_iff] at done
  obtain ⟨⟨result, rest⟩, filled, ⟨response, buffer⟩, found, same⟩ := done
  cases same
  obtain ⟨before, last, rfl, early, short⟩ := fill_last unfinished filled
  obtain ⟨line, _⟩ := Lines.first_split found
  obtain ⟨pending, _, rfl⟩ := Lines.newline_beyond early line.symm
  simp only [List.length_append, List.length_cons, sizeof_BUFF_SIZE] at short
  simp only [Function.update_self]
  omega

end

/-- What has been read of a stream that started with these pieces: the lines
returned, each with its newline, and the buffer. -/
structure Framed (initial : List Chunk) (reader : Reader) (socket : Int) : Prop where
  whole : ∀ line ∈ reader.responses socket, '\n' ∉ line
  consumed : ∃ consumed, initial = consumed ++ reader.arriving socket ∧
    consumed.flatMap Chunk.bytes =
      Lines.written '\n' (reader.responses socket) ++ reader.qmp_socket_to_buffers socket

section
variable {initial : List Chunk} {reader : Reader} {socket : Int} (framed : Framed initial reader socket)
include framed

theorem Framed.stream : initial.flatMap Chunk.bytes = Lines.written '\n' (reader.responses socket) ++
    (reader.qmp_socket_to_buffers socket ++ (reader.arriving socket).flatMap Chunk.bytes) := by
  obtain ⟨consumed, shape, bytes⟩ := framed.consumed
  rw [shape, List.flatMap_append, bytes, List.append_assoc]

theorem Framed.nul_free (nul_free : '\x00' ∉ initial.flatMap Chunk.bytes) :
    '\x00' ∉ (reader.arriving socket).flatMap Chunk.bytes := by
  obtain ⟨consumed, shape, _⟩ := framed.consumed
  rw [shape, List.flatMap_append] at nul_free
  exact fun member => nul_free (List.mem_append_right _ member)

theorem Framed.lines : (initial.flatMap Chunk.bytes).splitOn '\n' = reader.responses socket ++
    (reader.qmp_socket_to_buffers socket ++ (reader.arriving socket).flatMap Chunk.bytes).splitOn '\n' := by
  rw [framed.stream]
  exact Lines.splitOn_written framed.whole _

end

/-- A buffer that is shorter than any line with its newline holds no newline. -/
theorem Framed.unfinished {initial : List Chunk} {reader : Reader} {socket : Int} (framed : Framed initial reader socket)
    (long : ∀ line ∈ ((initial.flatMap Chunk.bytes).splitOn '\n').dropLast, 3 ≤ line.length)
    (short : (reader.qmp_socket_to_buffers socket).length ≤ 3) : '\n' ∉ reader.qmp_socket_to_buffers socket := by
  intro ends
  obtain ⟨line, rest, shape, outside⟩ := List.eq_append_cons_of_mem ends
  have lines := framed.lines
  rw [shape, List.append_assoc, List.cons_append, List.splitOn_append_cons_self_of_not_mem outside] at lines
  have listed : line ∈ ((initial.flatMap Chunk.bytes).splitOn '\n').dropLast := by
    rw [lines, List.dropLast_append_of_ne_nil (List.cons_ne_nil _ _),
      List.dropLast_cons_of_ne_nil (List.splitOn_ne_nil _ _)]
    exact List.mem_append_right _ List.mem_cons_self
  have enough := long line listed
  rw [shape, List.length_append, List.length_cons] at short
  omega

/-- Every call leaves every stream framed. -/
theorem Framed.read_line {initial : List Chunk} {reader next : Reader} {called socket : Int}
    (framed : Framed initial reader socket) (nul_free : '\x00' ∉ (reader.arriving called).flatMap Chunk.bytes)
    (done : reader.read_line called = some next) : Framed initial next socket := by
  obtain ⟨⟨pieces, response, arrived, line, outside, returned⟩, frame⟩ := read_line_effect nul_free done
  by_cases same : socket = called
  · subst same
    obtain ⟨consumed, shape, bytes⟩ := framed.consumed
    constructor
    · intro other member
      rw [returned] at member
      rcases List.mem_append.mp member with earlier | last
      · exact framed.whole other earlier
      · cases List.mem_singleton.mp last
        exact outside
    · refine ⟨consumed ++ pieces, ?_, ?_⟩
      · rw [shape, arrived, List.append_assoc]
      · rw [List.flatMap_append, bytes, List.append_assoc, line, returned, Lines.written_concat]
        simp
  · obtain ⟨buffer, unread, responses⟩ := frame socket same
    constructor
    · rw [responses]
      exact framed.whole
    · rw [responses, unread, buffer]
      exact framed.consumed

section
variable {arriving : Int → List Chunk} (nul_free : ∀ socket, '\x00' ∉ (arriving socket).flatMap Chunk.bytes)
include nul_free

/-- After any calls every stream is framed, by one line a call. -/
theorem framed_run {calls : List Int} {final : Reader} (ran : Machine.run read_line { arriving } calls = some final)
    (socket : Int) : Framed (arriving socket) final socket ∧ (final.responses socket).length = calls.count socket := by
  revert socket
  apply Machine.run_history (fun (past : List Int) (reader : Reader) => ∀ socket,
    Framed (arriving socket) reader socket ∧ (reader.responses socket).length = past.count socket) _ _ calls final ran
  · exact fun socket => ⟨⟨by simp, [], rfl, rfl⟩, rfl⟩
  · intro past reader called next _ before done socket
    have unread := (before called).1.nul_free (nul_free called)
    obtain ⟨framed, length⟩ := before socket
    refine ⟨framed.read_line unread done, ?_⟩
    obtain ⟨⟨_, response, _, _, _, returned⟩, frame⟩ := read_line_effect unread done
    by_cases same : socket = called
    · subst same
      rw [returned, List.length_append, length, List.count_append, List.count_singleton_self]
      rfl
    · have elsewhere : [called].count socket = 0 := List.count_eq_zero.mpr fun member => same (List.mem_singleton.mp member)
      rw [(frame socket same).2.2, length, List.count_append, elsewhere, Nat.add_zero]

/-- With lines of three characters the buffer never holds one. -/
theorem leftover_run {socket : Int} (long : ∀ line ∈ (((arriving socket).flatMap Chunk.bytes).splitOn '\n').dropLast, 3 ≤ line.length)
    {calls : List Int} {final : Reader} (ran : Machine.run read_line { arriving } calls = some final) :
    (final.qmp_socket_to_buffers socket).length ≤ 3 ∧ '\n' ∉ final.qmp_socket_to_buffers socket := by
  apply Machine.run_history (fun (_ : List Int) (reader : Reader) =>
    (reader.qmp_socket_to_buffers socket).length ≤ 3 ∧ '\n' ∉ reader.qmp_socket_to_buffers socket) _ _ calls final ran
  · exact ⟨Nat.zero_le 3, List.not_mem_nil⟩
  · intro past reader called next ran before done
    by_cases same : socket = called
    · subst same
      have short := read_line_leftover before.2 done
      have framed := (framed_run nul_free (Machine.run_snoc ran done) socket).1
      exact ⟨short, framed.unfinished long short⟩
    · have unread := (framed_run nul_free ran called).1.nul_free (nul_free called)
      rw [((read_line_effect unread done).2 socket same).1]
      exact before

/-- No call blocks while its stream still holds a newline for it. -/
theorem calls_return {calls : List Int}
    (enough : ∀ socket, calls.count socket ≤ ((arriving socket).flatMap Chunk.bytes).count '\n') :
    ∃ final, Machine.run read_line { arriving } calls = some final := by
  induction calls using List.reverseRecOn with
  | nil => exact ⟨_, rfl⟩
  | append_singleton calls called ih =>
    have fewer (socket : Int) : calls.count socket ≤ (calls ++ [called]).count socket := by
      rw [List.count_append]
      exact Nat.le_add_right _ _
    obtain ⟨reader, ran⟩ := ih fun socket => (fewer socket).trans (enough socket)
    obtain ⟨framed, length⟩ := framed_run nul_free ran called
    have left := enough called
    rw [framed.stream, List.count_append, List.count_append, List.count_singleton_self, Lines.count_written framed.whole,
      length] at left
    obtain ⟨next, done⟩ := read_line_exists (framed.nul_free (nul_free called)) (List.count_pos_iff.mp (by omega))
    exact ⟨next, Machine.run_snoc ran done⟩

end
end Reader

/-- However the streams are cut into pieces and the calls interleaved, each call
returns the next line of its stream. -/
theorem read_line_frames {stream : Int → List Char} (nul_free : ∀ socket, '\x00' ∉ stream socket)
    {arriving : Int → List Chunk} (pieces : ∀ socket, (arriving socket).flatMap Chunk.bytes = stream socket)
    {calls : List Int} (enough : ∀ socket, calls.count socket ≤ (stream socket).count '\n') :
    ∃ final, Machine.run Reader.read_line { arriving } calls = some final ∧
      (∀ socket, final.responses socket = ((stream socket).splitOn '\n').take (calls.count socket) ∧
        ∃ consumed, arriving socket = consumed ++ final.arriving socket ∧
          consumed.flatMap Chunk.bytes =
            Lines.written '\n' (final.responses socket) ++ final.qmp_socket_to_buffers socket) ∧
      ∀ past called before, calls = past ++ [called] → Machine.run Reader.read_line { arriving } past = some before →
        ∀ other, other ≠ called → final.qmp_socket_to_buffers other = before.qmp_socket_to_buffers other ∧
          final.arriving other = before.arriving other ∧ final.responses other = before.responses other := by
  obtain rfl : (fun socket => (arriving socket).flatMap Chunk.bytes) = stream := funext pieces
  obtain ⟨final, ran⟩ := Reader.calls_return nul_free enough
  refine ⟨final, ran, ?_, ?_⟩
  · intro socket
    obtain ⟨framed, length⟩ := Reader.framed_run nul_free ran socket
    refine ⟨?_, framed.consumed⟩
    rw [framed.lines, ← length, List.take_left]
  · intro past called before split prior
    subst split
    obtain ⟨middle, reached, done⟩ := (Machine.run_snoc_iff Reader.read_line).mp ran
    cases prior.symm.trans reached
    have unread := (Reader.framed_run nul_free prior called).1.nul_free (nul_free called)
    exact (Reader.read_line_effect unread done).2

/-- The second piece ends the first line and begins the second. -/
private def pieces_of_two : List Chunk :=
  [⟨['S', 'T', 'O', 'P'], by decide, by decide⟩, ⟨['\n', 'y', 'e', 's'], by decide, by decide⟩, ⟨['\n'], by decide, by decide⟩]

private def one_socket : Int → List Chunk := Function.update (fun _ => []) 7 pieces_of_two

private theorem one_socket_nul_free (socket : Int) : '\x00' ∉ (one_socket socket).flatMap Chunk.bytes := by
  by_cases same : socket = 7
  · subst same
    decide
  · simp [one_socket, Function.update_of_ne same]

theorem read_line_frames_two : ∃ final, Machine.run Reader.read_line { arriving := one_socket } [7, 7] = some final ∧
    final.responses 7 = [['S', 'T', 'O', 'P'], ['y', 'e', 's']] := by
  have enough (socket : Int) : [7, 7].count socket ≤ ((one_socket socket).flatMap Chunk.bytes).count '\n' := by
    by_cases same : socket = 7
    · subst same
      decide
    · simp [Ne.symm same]
  obtain ⟨final, ran, lines, _⟩ := read_line_frames one_socket_nul_free (fun _ => rfl) enough
  exact ⟨final, ran, (lines 7).1⟩

/-- Where every line has three characters, what a call leaves is less than a line:
the end of a line that no call has returned is still in the socket, so `select`
reports it once it has arrived. -/
theorem read_line_strands_nothing {stream : Int → List Char} (nul_free : ∀ socket, '\x00' ∉ stream socket)
    {arriving : Int → List Chunk} (pieces : ∀ socket, (arriving socket).flatMap Chunk.bytes = stream socket)
    {socket : Int} (long : ∀ line ∈ ((stream socket).splitOn '\n').dropLast, 3 ≤ line.length)
    {calls : List Int} {final : Reader} (ran : Machine.run Reader.read_line { arriving } calls = some final) :
    (final.qmp_socket_to_buffers socket).length ≤ 3 ∧ '\n' ∉ final.qmp_socket_to_buffers socket ∧
      ∀ lines stop later arrived coming, stream socket = Lines.written '\n' (final.responses socket ++ lines ++ [stop]) ++ later →
        (final.arriving socket).flatMap Chunk.bytes = arrived ++ coming → coming <:+ later →
        (∃ pending rest, arrived = pending ++ '\n' :: rest ∧ later = rest ++ coming) ∧
        ∀ {VM_NUMBER : Nat} (world : World VM_NUMBER) (i : Fin VM_NUMBER), world.control = .listen i →
          (world.connections i).socket = arrived → world.ready = some { world with control := .receive i } := by
  obtain rfl : (fun socket => (arriving socket).flatMap Chunk.bytes) = stream := funext pieces
  obtain ⟨short, unfinished⟩ := Reader.leftover_run nul_free long ran
  refine ⟨short, unfinished, ?_⟩
  intro lines stop later arrived coming written unread suffix
  have framed := (Reader.framed_run nul_free ran socket).1
  obtain ⟨rest, rfl⟩ := suffix
  -- The returned lines and the buffer end before the newline of this line.
  have same : Lines.written '\n' lines ++ stop ++ '\n' :: (rest ++ coming) =
      final.qmp_socket_to_buffers socket ++ (arrived ++ coming) := by
    have streams := written.symm.trans framed.stream
    rw [List.append_assoc, Lines.written, List.flatMap_append, List.append_assoc, ← Lines.written, unread] at streams
    simpa [Lines.written] using List.append_cancel_left streams
  obtain ⟨pending, _, shape⟩ := Lines.newline_beyond unfinished same
  rw [← List.cons_append, ← List.append_assoc] at shape
  obtain rfl := List.append_cancel_right shape
  refine ⟨⟨pending, rest, rfl, rfl⟩, ?_⟩
  intro VM_NUMBER world i listening socket
  have readable : (world.connections i).socket ≠ [] := by simp [socket]
  simp only [World.ready, listening, if_neg readable]

theorem read_line_strands_nothing_two : ∃ final, Machine.run Reader.read_line { arriving := one_socket } [7] = some final ∧
    (final.qmp_socket_to_buffers 7).length ≤ 3 ∧ '\n' ∉ final.qmp_socket_to_buffers 7 ∧
    (final.arriving 7).flatMap Chunk.bytes = ['\n'] := by
  obtain ⟨short, unfinished, _⟩ := @read_line_strands_nothing _ one_socket_nul_free one_socket (fun _ => rfl) 7 (by decide) [7] _ rfl
  exact ⟨_, rfl, short, unfinished, rfl⟩

end NetworkSimulator.Simulator
