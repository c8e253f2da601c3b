import Ubervisor.Chunks

/-! # The read callback

`read_cb` and `run_server_command` over any state and any command handlers. The decoder
keeps its phase in the pair of `c_len` and `c_cid` and moves the low watermark with it. -/
namespace UbervisorReadCallback

open UbervisorValues
open UbervisorChunks

inductive Command where
  | dele | dump | exit | getc | helo | kill | list | pids | read | spwn | subs | updt
  deriving DecidableEq

def commands : List (Bytes × Command) :=
  [(text "DELE", .dele), (text "DUMP", .dump), (text "EXIT", .exit), (text "GETC", .getc),
    (text "HELO", .helo), (text "KILL", .kill), (text "LIST", .list), (text "PIDS", .pids),
    (text "READ", .read), (text "SPWN", .spwn), (text "SUBS", .subs), (text "UPDT", .updt)]

/-- `command_compar` yields 0: `strncmp` over four bytes. -/
def commandCompar (buf name : Bytes) : Bool := buf.take 4 == name.take 4

/-- `bsearch` over the sorted table of commands. -/
def findCommand (buf : Bytes) : Option Command :=
  (commands.find? fun c => commandCompar buf c.1).map Prod.snd

/-- `bsearch` asks for a table in ascending order. -/
theorem commands_sorted : commands.Pairwise fun a b => a.1 < b.1 := by decide

variable {σ : Type*}

abbrev Handler (σ : Type*) := Command → σ → UInt16 → Bytes → Bool × σ

/-- The part of `struct client_con` the decoder uses, and the input buffer with its low
watermark. -/
structure Conn where
  cLen : ℕ
  cCid : UInt16
  input : Bytes
  low : ℕ
  deriving DecidableEq

/-- A connection as `accept_cb` sets it up. -/
def acceptedConn : Conn := ⟨0, 0, [], 4⟩

/-- A connection, the server behind it, what was handed to `run_server_command` on it and
what the handlers returned. -/
structure Link (σ : Type*) where
  conn : Conn
  server : σ
  dispatched : List (UInt16 × Bytes)
  returns : List Bool

/-- How the body of the loop goes on: with the next statement, or out of the callback. -/
inductive Phase (α : Type*) where
  | wait
  | drop
  | go (a : α)

/-- Read command len. -/
def readLen (c : Conn) : Phase Conn :=
  if c.cLen = 0 ∧ c.cCid = 0 then
    match c.input with
    | hi :: lo :: rest =>
      let len := (readBe16 hi lo).toNat
      if len > chunkSiz then .drop
      else if len < 4 then .drop
      else .go { c with cLen := len, input := rest, low := 2 }
    | _ => .wait
  else .go c

/-- Read command cid. -/
def readCid (c : Conn) : Phase Conn :=
  if 0 < c.cLen ∧ c.cCid = 0 then
    match c.input with
    | hi :: lo :: rest => .go { c with cCid := readBe16 hi lo, input := rest, low := c.cLen }
    | _ => .wait
  else .go c

/-- `run_server_command`: an unknown command counts as one that returned 0. -/
def runServerCommand (handler : Handler σ) (l : Link σ) (buf : Bytes) : Bool × Link σ :=
  let l := { l with dispatched := l.dispatched ++ [(l.conn.cCid, buf)] }
  match findCommand buf with
  | some c =>
    let (cr, s) := handler c l.server l.conn.cCid (buf.drop 4)
    (cr, { l with server := s, returns := l.returns ++ [cr] })
  | none => (false, l)

/-- The end of a callback: the connection stays, or it was dropped, or the loop spins. -/
inductive Status where
  | waiting
  | dropped
  | spinning
  deriving DecidableEq

/-- `read_cb`: at most `fuel` turns of its loop. -/
def readCb (handler : Handler σ) : ℕ → Link σ → Status × Link σ
  | 0, l => (.spinning, l)
  | fuel + 1, l =>
    match readLen l.conn with
    | .wait => (.waiting, l)
    | .drop => (.dropped, l)
    | .go c =>
      match readCid c with
      | .wait => (.waiting, { l with conn := c })
      | .drop => (.dropped, { l with conn := c })
      | .go c =>
        -- read command name and payload
        if 0 < c.cLen ∧ c.cCid ≠ 0 then
          if c.input.length < c.cLen then (.waiting, { l with conn := c })
          else
            let buf := c.input.take c.cLen
            let l := { l with conn :=
              { c with cLen := 0, input := c.input.drop c.cLen, low := 2 } }
            match runServerCommand handler l buf with
            | (false, l) => (.dropped, l)
            | (true, l) => readCb handler fuel { l with conn := { l.conn with cCid := 0 } }
        else readCb handler fuel { l with conn := c }

/-- Bytes arrive: the callback runs if the buffer then holds at least the low watermark.
A turn of the loop takes at least two bytes, so that the fuel suffices. -/
def arrive (handler : Handler σ) (x : Status × Link σ) (seg : Bytes) : Status × Link σ :=
  match x with
  | (.waiting, l) =>
    let c := { l.conn with input := l.conn.input ++ seg }
    if c.input.length < c.low then (.waiting, { l with conn := c })
    else readCb handler (c.input.length + 1) { l with conn := c }
  | x => x

def feed (handler : Handler σ) (s : σ) (segs : List Bytes) : Status × Link σ :=
  segs.foldl (arrive handler) (.waiting, ⟨acceptedConn, s, [], []⟩)

end UbervisorReadCallback
