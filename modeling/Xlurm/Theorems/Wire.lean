/-
  Xlurm.Theorems.Wire

  What `send` writes, `receive` returns; and `receive` sees the bytes of a
  stream, not the chunks that they come in.
-/

import Xlurm.Model.Wire

namespace Xlurm

open Json

/-! ## Lines -/

/-- The bytes up to the first line break and with it, or all of them. -/
def line (bytes : List UInt8) : List UInt8 := bytes.take (bytes.idxOf newline + 1)

theorem line_append_of_notMem {before : List UInt8} (h : newline ∉ before) (rest : List UInt8) :
    line (before ++ rest) = before ++ line rest := by
  rw [line, List.idxOf_append, if_neg h, line, List.take_append]
  have hall : before.take (rest.idxOf newline + before.length + 1) = before :=
    List.take_of_length_le (by omega)
  have hrest : rest.idxOf newline + before.length + 1 - before.length = rest.idxOf newline + 1 := by
    omega
  rw [hall, hrest]

theorem line_append_of_mem {before : List UInt8} (h : newline ∈ before) (rest : List UInt8) :
    line (before ++ rest) = line before := by
  have hlt := List.idxOf_lt_length_of_mem h
  rw [line, List.idxOf_append, if_pos h, line, List.take_append_of_le_length (by omega)]

theorem line_of_notMem {bytes : List UInt8} (h : newline ∉ bytes) : line bytes = bytes := by
  have happend := line_append_of_notMem h []
  rwa [List.append_nil, show line [] = [] from rfl, List.append_nil] at happend

/-- The message at the front of these bytes; `ending` says why there are no more of them. -/
def frame (limit : Nat) (bytes : List UInt8) (ending : Error) : Except Error (List UInt8) :=
  if limit < (line bytes).length then .error exceedsLimit
  else if newline ∈ bytes then .ok (line bytes)
  else .error ending

/-- The bytes of a stream, up to its end. -/
def received : List Fill → List UInt8
  | [] => []
  | .interrupted :: rest => received rest
  | .failed _ :: _ => []
  | .chunk chunk :: rest => if chunk = [] then [] else chunk ++ received rest

/-- Why a stream ends: it was closed, or reading it failed. -/
def ending : List Fill → Error
  | [] => closedEarly
  | .interrupted :: rest => ending rest
  | .failed error :: _ => error
  | .chunk chunk :: rest => if chunk = [] then closedEarly else ending rest

theorem frame_ended {α : Type} {limit : Nat} {bytes : List UInt8} (hbytes : newline ∉ bytes)
    (hfits : bytes.length ≤ limit) (decode : List UInt8 → Except Error α) (error : Error) :
    (frame limit (bytes ++ []) error).bind decode = .error error := by
  rw [List.append_nil, frame, line_of_notMem hbytes, if_neg (by omega), if_neg hbytes]
  rfl

theorem mem_of_idxOf? {chunk : List UInt8} {i : Nat} (h : chunk.idxOf? newline = some i) :
    newline ∈ chunk := by
  apply Decidable.byContradiction
  intro hnot
  rw [List.idxOf?_eq_none_iff.mpr hnot] at h
  cases h

theorem line_of_idxOf? {chunk : List UInt8} {i : Nat} (h : chunk.idxOf? newline = some i) :
    line chunk = chunk.take (i + 1) := by
  rw [List.idxOf?] at h
  rw [line, List.idxOf, List.findIdx_eq_getD_findIdx?, h, Option.getD_some]

/-- Between two reads no line break was seen, and what was read fits the limit. -/
theorem receiveLoop_eq {α : Type} (limit : Nat) (decode : List UInt8 → Except Error α)
    (stream : List Fill) (bytes : List UInt8) (hbytes : newline ∉ bytes)
    (hfits : bytes.length ≤ limit) :
    receiveLoop limit decode bytes stream =
      (frame limit (bytes ++ received stream) (ending stream)).bind decode := by
  induction stream generalizing bytes with
  | nil => exact (frame_ended hbytes hfits decode closedEarly).symm
  | cons fill rest ih =>
      cases fill with
      | interrupted => exact ih bytes hbytes hfits
      | failed error => exact (frame_ended hbytes hfits decode error).symm
      | chunk chunk =>
          rw [receiveLoop, received, ending]
          by_cases hempty : chunk = []
          · rw [if_pos hempty, if_pos hempty, if_pos hempty]
            exact (frame_ended hbytes hfits decode closedEarly).symm
          · rw [if_neg hempty, if_neg hempty, if_neg hempty]
            cases hstop : chunk.idxOf? newline with
            | none =>
                -- The whole chunk belongs to the line.
                have hchunk : newline ∉ bytes ++ chunk := by
                  have hnot := List.idxOf?_eq_none_iff.mp hstop
                  simp [hbytes, hnot]
                have hline := line_append_of_notMem hchunk (received rest)
                dsimp only [Option.map_none, Option.getD_none, Option.isSome_none]
                rw [List.take_length, ← List.append_assoc]
                split
                · rename_i hle
                  have hsize : (bytes ++ chunk).length ≤ limit := by
                    rw [List.length_append]
                    exact hle
                  exact ih _ hchunk hsize
                · rename_i hlong
                  rw [frame, hline, if_pos (by simp only [List.length_append]; omega)]
                  rfl
            | some i =>
                -- The line ends in this chunk; what follows it is not looked at.
                have hmem := mem_of_idxOf? hstop
                have hlength : i + 1 ≤ chunk.length := by
                  obtain ⟨hlt, _⟩ := List.idxOf?_eq_some_iff.mp hstop
                  exact hlt
                have hline : line (bytes ++ (chunk ++ received rest)) =
                    bytes ++ chunk.take (i + 1) := by
                  rw [line_append_of_notMem hbytes, line_append_of_mem hmem, line_of_idxOf? hstop]
                have hall : newline ∈ bytes ++ (chunk ++ received rest) := by simp [hmem]
                dsimp only [Option.map_some, Option.getD_some, Option.isSome_some]
                rw [frame, if_pos hall, hline, List.length_append, List.length_take_of_le hlength]
                split
                · rename_i hle
                  rw [if_pos rfl, if_neg (by omega)]
                  rfl
                · rename_i hlong
                  rw [if_pos (by omega)]
                  rfl

theorem receive_eq {α : Type} (serde : Codec) (format : Format α) (limit : Nat)
    (stream : List Fill) :
    receive serde format limit stream =
      (frame limit (received stream) (ending stream)).bind (fromSlice serde format) :=
  receiveLoop_eq limit (fromSlice serde format) stream [] nofun (Nat.zero_le limit)

/-! ## Messages -/

theorem fromSlice_send {α : Type} {serde : Codec} {d : Nat} (hserde : serde.Lawful d)
    (format : Format α) (hdepth : format.depth ≤ d) {value : α} (hvalue : format.Valid value) :
    fromSlice serde format (send serde format value) = .ok value := by
  have hnative := format.native_le hvalue hdepth
  have hparse := hserde.parse_line _ _ (hserde.parse_print _ hnative)
  rw [fromSlice, send, hparse, Option.bind_some, format.round_trip value hvalue]

theorem newline_mem_send {α : Type} (serde : Codec) (format : Format α) (value : α) :
    newline ∈ send serde format value :=
  List.mem_append_right _ List.mem_cons_self

theorem line_send {α : Type} {serde : Codec} {format : Format α} {value : α}
    (h : newline ∉ serde.print (format.encode value)) :
    line (send serde format value) = send serde format value := by
  rw [send, line_append_of_notMem h]
  rfl

theorem receive_send {α : Type} {serde : Codec} {d : Nat} (hserde : serde.Lawful d)
    (format : Format α) (hdepth : format.depth ≤ d) {value : α} (hvalue : format.Valid value)
    {limit : Nat} (hfits : (send serde format value).length ≤ limit) {stream : List Fill}
    {rest : List UInt8} (hstream : received stream = send serde format value ++ rest) :
    receive serde format limit stream = .ok value := by
  have hnative := format.native_le hvalue hdepth
  have hline := line_send (hserde.print_line _ hnative)
  have hmem := newline_mem_send serde format value
  rw [receive_eq, hstream, frame, line_append_of_mem hmem, hline, if_neg (by omega),
    if_pos (List.mem_append_left _ hmem)]
  exact fromSlice_send hserde format hdepth hvalue

/-- Requests and responses arrive as they were sent, however the stream is cut and whatever follows
    them; what `receive` returns depends on the bytes of the stream and on its end alone. -/
theorem wire (serde : Codec) (hserde : serde.Lawful 127) :
    (∀ (request : Request) (limit : Nat) (stream : List Fill) (rest : List UInt8),
      request.Typed → (send serde Request.format request).length ≤ limit →
      received stream = send serde Request.format request ++ rest →
      receive serde Request.format limit stream = .ok request) ∧
    (∀ (response : Response) (limit : Nat) (stream : List Fill) (rest : List UInt8),
      response.Typed → (send serde Response.format response).length ≤ limit →
      received stream = send serde Response.format response ++ rest →
      receive serde Response.format limit stream = .ok response) ∧
    ∀ (α : Type) (format : Format α) (limit : Nat) (stream : List Fill),
      receive serde format limit stream =
        (frame limit (received stream) (ending stream)).bind (fromSlice serde format) := by
  refine ⟨?_, ?_, ?_⟩
  · intro request limit stream rest htyped hfits hstream
    exact receive_send hserde Request.format (by decide) htyped hfits hstream
  · intro response limit stream rest htyped hfits hstream
    exact receive_send hserde Response.format (by decide) htyped hfits hstream
  · intro α format limit stream
    exact receive_eq serde format limit stream

/-- A submission with some of its optional fields. -/
def sentRequest : Request := .submit
  { command := ["sh"], cwd := "/", env := [("A", "1"), ("B", "")], name := "n", count := 1,
    deviceIds := none, excludeDeviceIds := [2], kind := some .ppu, timeLimit := some 5,
    script := some "\n" }

theorem sentRequest_typed : sentRequest.Typed where
  env := by
    unfold Format.Sorted
    decide
  count := by decide
  deviceIds := nofun
  excludeDeviceIds := by decide
  timeLimit := by simp

/-- A view without a monitoring error. -/
def sentResponse : Response :=
  .info [⟨⟨.ascend, 1, "Ascend950PR", "1", none, none⟩, none, "unknown", none⟩]

theorem sentResponse_typed : sentResponse.Typed := by
  intro view hview
  obtain rfl := List.mem_singleton.mp hview
  exact ⟨⟨by decide, nofun, nofun⟩, nofun⟩

set_option maxRecDepth 10000 in
theorem wire_chunks :
    receive Codec.compact Request.format requestLimit
        [.chunk ((send Codec.compact Request.format sentRequest).take 7), .interrupted,
          .chunk ((send Codec.compact Request.format sentRequest).drop 7 ++ [0])] =
        .ok sentRequest ∧
      receive Codec.compact Response.format responseLimit
        [.chunk (send Codec.compact Response.format sentResponse)] = .ok sentResponse := by
  have hlawful := Codec.compact_lawful 127
  constructor
  · exact (wire Codec.compact hlawful).1 sentRequest requestLimit _ [0] sentRequest_typed
      (by decide) (by decide)
  · exact (wire Codec.compact hlawful).2.1 sentResponse responseLimit _ [] sentResponse_typed
      (by decide) (by decide)

end Xlurm
