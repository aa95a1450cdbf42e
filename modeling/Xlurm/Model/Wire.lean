/-
  Xlurm.Model.Wire

  `send`, `receive` and `request` of `daemon.rs`: messages on the socket, one
  JSON value a line.

  `serde_json` is a parameter.  A stream is what the calls of `fill_buf` return;
  `receive` consumes a whole buffer unless it returns.
-/

import Xlurm.Json.Codec
import Xlurm.Model.Protocol

namespace Xlurm

open Json

/-- What a call of `fill_buf` returns; an empty buffer is the end of the stream. -/
inductive Fill
  | interrupted
  | failed (error : Error)
  | chunk (bytes : List UInt8)

def closedEarly : Error := "connection closed before complete message"

def exceedsLimit : Error := "message exceeds size limit"

/-- What `send` writes. -/
def send {α : Type} (serde : Codec) (format : Format α) (value : α) : List UInt8 :=
  serde.print (format.encode value) ++ [newline]

/-- `serde_json::from_slice`. -/
def fromSlice {α : Type} (serde : Codec) (format : Format α) (bytes : List UInt8) :
    Except Error α :=
  match (serde.parse bytes).bind format.decode with
  | some value => .ok value
  | none => .error (serde.error bytes)

/-- The loop of `receive`, after `bytes` were read without a line break. -/
def receiveLoop {α : Type} (limit : Nat) (decode : List UInt8 → Except Error α)
    (bytes : List UInt8) : List Fill → Except Error α
  | [] => .error closedEarly
  | .interrupted :: rest => receiveLoop limit decode bytes rest
  | .failed error :: _ => .error error
  | .chunk chunk :: rest =>
      if chunk = [] then .error closedEarly
      else
        let stop := (chunk.idxOf? newline).map (· + 1)
        let length := stop.getD chunk.length
        if bytes.length + length ≤ limit then
          let bytes := bytes ++ chunk.take length
          if stop.isSome then decode bytes else receiveLoop limit decode bytes rest
        else .error exceedsLimit

def receive {α : Type} (serde : Codec) (format : Format α) (limit : Nat) (stream : List Fill) :
    Except Error α :=
  receiveLoop limit (fromSlice serde format) [] stream

/-- The limit for requests in `serve`. -/
def requestLimit : Nat := 4 * 1024 * 1024

/-- The limit for responses in `request`. -/
def responseLimit : Nat := 64 * 1024 * 1024

/-- The end of `request`, with the daemon's answer on this stream. -/
def requestAnswer (serde : Codec) (stream : List Fill) : Except Error Response := do
  match ← receive serde Response.format responseLimit stream with
  | .error error => throw error
  | response => return response

end Xlurm
