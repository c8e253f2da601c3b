import Ubervisor.Pipes
import Ubervisor.Runs
import Ubervisor.Server

/-! # The proxy

`proxy` copies its standard input to the socket of the server and the socket to its standard
output. It ends at the first error or end of file, with whatever its buffers hold. -/
namespace UbervisorProxy

open UbervisorRuns
open UbervisorValues
open UbervisorServer (bufferSiz)
open UbervisorPipes

/-- `be_in`, `be_out` and `be_sock`. -/
inductive Bev where
  | beIn | beOut | beSock
  deriving DecidableEq

structure Buffers where
  input : Bytes
  output : Bytes
  deriving DecidableEq

structure Proxy where
  bufs : Bev → Buffers
  exited : Bool

def Proxy.setInput (p : Proxy) (b : Bev) (input : Bytes) : Proxy :=
  { p with bufs := Function.update p.bufs b { p.bufs b with input := input } }

def Proxy.setOutput (p : Proxy) (b : Bev) (output : Bytes) : Proxy :=
  { p with bufs := Function.update p.bufs b { p.bufs b with output := output } }

/-- Where `proxy_read_cb` writes what it has read. -/
def peer (b : Bev) : Bev := if b = .beIn then .beSock else .beOut

/-- If `bufferevent_write` fails the proxy exits, and what has been read is lost. -/
def proxyReadCb (p : Proxy) (b : Bev) (wrote : Bool) : Proxy :=
  let buf := (p.bufs b).input.take bufferSiz
  let p := p.setInput b ((p.bufs b).input.drop bufferSiz)
  if wrote then p.setOutput (peer b) ((p.bufs (peer b)).output ++ buf)
  else { p with exited := true }

def proxyErrorCb (p : Proxy) : Proxy := { p with exited := true }

/-- The proxy, what it has read and written so far on each side, and what it has read but could
not hand on. -/
structure Relay where
  proxy : Proxy
  read : Bev → Bytes
  written : Bev → Bytes
  lost : Bev → Bytes

/-- What libevent does: read some bytes and call `proxy_read_cb`, write some bytes, or call
`proxy_error_cb`. -/
inductive Signal where
  | readable (b : Bev) (seg : Bytes) (wrote : Bool)
  | writable (b : Bev) (n : ℕ)
  | failed

/-- `EV_READ` is enabled on `be_in` and `be_sock`, with `BUFFER_SIZ` as the high watermark. -/
def CanRelay (r : Relay) : Signal → Prop
  | .readable b seg _ => r.proxy.exited = false ∧ b ≠ .beOut ∧ seg ≠ [] ∧
      (r.proxy.bufs b).input.length + seg.length ≤ bufferSiz
  | .writable b n => r.proxy.exited = false ∧ n ≤ (r.proxy.bufs b).output.length
  | .failed => r.proxy.exited = false

instance (r : Relay) (s : Signal) : Decidable (CanRelay r s) := by
  cases s <;> simp only [CanRelay] <;> infer_instance

def relay (r : Relay) : Signal → Relay
  | .readable b seg wrote =>
    let p := r.proxy.setInput b ((r.proxy.bufs b).input ++ seg)
    { r with
      proxy := proxyReadCb p b wrote
      read := Function.update r.read b (r.read b ++ seg)
      lost := if wrote then r.lost
        else Function.update r.lost b (r.lost b ++ (p.bufs b).input.take bufferSiz) }
  | .writable b n =>
    { r with
      proxy := r.proxy.setOutput b ((r.proxy.bufs b).output.drop n)
      written := Function.update r.written b (r.written b ++ (r.proxy.bufs b).output.take n) }
  | .failed => { r with proxy := proxyErrorCb r.proxy }

/-- What is read or written at a bufferevent. -/
def Signal.takes (b : Bev) : Signal → Bytes
  | .readable c seg _ => if b = c then seg else []
  | _ => []

def Signal.gives (r : Relay) (b : Bev) : Signal → Bytes
  | .writable c n => if b = c then (r.proxy.bufs c).output.take n else []
  | _ => []

abbrev Relays : Relay → Signal → Relay → Prop := Guarded CanRelay relay

def Relay.start : Relay := ⟨⟨fun _ => ⟨[], []⟩, false⟩, fun _ => [], fun _ => [], fun _ => []⟩

section Steps

variable {r : Relay} {s : Signal} {p : Proxy} {b c : Bev} {x : Bytes}

@[simp] theorem setInput_exited : (p.setInput b x).exited = p.exited := rfl

@[simp] theorem setInput_input :
    ((p.setInput b x).bufs c).input = if c = b then x else (p.bufs c).input := by
  unfold Proxy.setInput
  by_cases h : c = b
  · simp [h]
  · simp [h]

@[simp] theorem setInput_output : ((p.setInput b x).bufs c).output = (p.bufs c).output := by
  unfold Proxy.setInput
  by_cases h : c = b
  · simp [h]
  · simp [h]

@[simp] theorem setOutput_exited : (p.setOutput b x).exited = p.exited := rfl

@[simp] theorem setOutput_input : ((p.setOutput b x).bufs c).input = (p.bufs c).input := by
  unfold Proxy.setOutput
  by_cases h : c = b
  · simp [h]
  · simp [h]

@[simp] theorem setOutput_output :
    ((p.setOutput b x).bufs c).output = if c = b then x else (p.bufs c).output := by
  unfold Proxy.setOutput
  by_cases h : c = b
  · simp [h]
  · simp [h]

/-- The two sources are written to different bufferevents. -/
theorem peer_inj (hb : b ≠ .beOut) (hc : c ≠ .beOut) (h : peer c = peer b) : c = b := by
  revert hb hc h
  cases b <;> cases c <;> decide

theorem relay_read : (relay r s).read b = r.read b ++ s.takes b := by
  cases s with
  | readable c seg wrote =>
    by_cases h : b = c
    · simp [relay, Signal.takes, h]
    · simp [relay, Signal.takes, h]
  | _ => exact (List.append_nil _).symm

theorem relay_written : (relay r s).written b = r.written b ++ s.gives r b := by
  cases s with
  | writable c n =>
    by_cases h : b = c
    · simp [relay, Signal.gives, h]
    · simp [relay, Signal.gives, h]
  | _ => exact (List.append_nil _).symm

/-- Between two callbacks nothing is left to read, and what was read on a side was written on
the other one, is in the output buffer there, or could not be handed on. -/
structure Held (r : Relay) : Prop where
  drained : ∀ b, (r.proxy.bufs b).input = []
  carried : ∀ b ≠ .beOut, Carried (r.read b) (r.written (peer b))
    [(r.proxy.bufs (peer b)).output, r.lost b]
  kept : r.proxy.exited = false → ∀ b, r.lost b = []
  little : ∀ b, (r.lost b).length ≤ bufferSiz

theorem Held.readable {seg : Bytes} {wrote : Bool} (h : Held r)
    (hs : CanRelay r (.readable b seg wrote)) : Held (relay r (.readable b seg wrote)) := by
  obtain ⟨hlive, hsource, -, hfit⟩ := hs
  rw [h.drained b] at hfit
  have hseg : seg.length ≤ bufferSiz := by simpa using hfit
  have htake : seg.take bufferSiz = seg := List.take_of_length_le hseg
  have hrest : seg.drop bufferSiz = [] := List.drop_of_length_le hseg
  cases wrote with
  | true =>
    refine ⟨fun c => ?_, fun c hc => ?_, h.kept, h.little⟩
    · by_cases he : c = b
      · simp [relay, proxyReadCb, he, h.drained, hrest]
      · simp [relay, proxyReadCb, he, h.drained]
    · have hbefore := h.carried c hc
      by_cases he : c = b
      · subst he
        have hput := hbefore.fill (p := []) seg fun x hx => by
          rw [List.mem_singleton.mp hx, h.kept hlive c]
        simpa [relay, proxyReadCb, h.drained, htake] using hput
      · have hpeer : peer c ≠ peer b := fun hp => he (peer_inj hsource hc hp)
        simpa [relay, proxyReadCb, he, hpeer] using hbefore
  | false =>
    refine ⟨fun c => ?_, fun c hc => ?_, nofun, fun c => ?_⟩
    · by_cases he : c = b
      · simp [relay, proxyReadCb, he, h.drained, hrest]
      · simp [relay, proxyReadCb, he, h.drained]
    · have hbefore := h.carried c hc
      by_cases he : c = b
      · subst he
        have hput := hbefore.put (p := [(r.proxy.bufs (peer c)).output]) seg
        simpa [relay, proxyReadCb, h.drained, htake] using hput
      · simpa [relay, proxyReadCb, he] using hbefore
    · by_cases he : c = b
      · simpa [relay, proxyReadCb, he, h.drained, h.kept hlive, htake] using hseg
      · simpa [relay, proxyReadCb, he] using h.little c

theorem Held.writable {n : ℕ} (h : Held r) : Held (relay r (.writable b n)) := by
  refine ⟨fun c => ?_, fun c hc => ?_, h.kept, h.little⟩
  · simpa [relay] using h.drained c
  · have hbefore := h.carried c hc
    by_cases he : peer c = b
    · subst he
      simpa [relay] using hbefore.take n
    · simpa [relay, he] using hbefore

theorem relay_held (h : Held r) (hs : CanRelay r s) : Held (relay r s) := by
  cases s with
  | readable b seg wrote => exact h.readable hs
  | writable b n => exact h.writable
  | failed => exact ⟨h.drained, h.carried, nofun, h.little⟩

theorem start_held : Held .start where
  drained _ := rfl
  carried _ _ := rfl
  kept _ _ := rfl
  little _ := Nat.zero_le _

end Steps

section Runs

variable {r : Relay} {b : Bev}

/-- What the proxy has written on either side is what it has read on the other, in the same
order, up to what is still in the output buffer. When it exits, that is lost, and with it at
most one buffer of bytes that could not be handed on. -/
theorem relay_carries (h : Execution Relays Always .start r) :
    (∀ b ≠ .beOut, Carried (r.read b) (r.written (peer b))
      [(r.proxy.bufs (peer b)).output, r.lost b] ∧ (r.lost b).length ≤ bufferSiz) ∧
    (r.proxy.exited = false → ∀ b, (r.proxy.bufs b).input = [] ∧ r.lost b = []) := by
  have hheld := h.invariant (fun _ _ _ hr ⟨hcan, he⟩ _ => he ▸ relay_held hr hcan) start_held
  exact ⟨fun b hb => ⟨hheld.carried b hb, hheld.little b⟩,
    fun hlive b => ⟨hheld.drained b, hheld.kept hlive b⟩⟩

/-- A command of which a part is still to be written, and the end of the input. -/
def piped : List Signal :=
  [.readable .beIn [1, 2, 3] true, .writable .beSock 2, .readable .beSock [4] true, .failed]

theorem piped_carries : (∀ b ≠ .beOut, Carried ((stateAfter relay .start piped).read b)
      ((stateAfter relay .start piped).written (peer b))
      [((stateAfter relay .start piped).proxy.bufs (peer b)).output,
        (stateAfter relay .start piped).lost b] ∧
      ((stateAfter relay .start piped).lost b).length ≤ bufferSiz) ∧
    ((stateAfter relay .start piped).proxy.exited = false → ∀ b,
      ((stateAfter relay .start piped).proxy.bufs b).input = [] ∧
        (stateAfter relay .start piped).lost b = []) :=
  relay_carries (Admits.execution (show Admits CanRelay relay Always .start piped by decide))

end Runs

end UbervisorProxy
