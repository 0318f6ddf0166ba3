import HeidiKernel.Kernel.StatusSocket

namespace HeidiKernel

open HeidiKernel.Transition
open HeidiKernel.Transition.Traced (value_bind)
open HeidiKernel.Data

/-! The socket of the daemon: it answers one request a client and closes the
connection. -/

structure IpcMessage where
  type : Bytes := []
  deriving DecidableEq, Repr

namespace IpcProtocol

def serialize (msg : IpcMessage) : Bytes := msg.type ++ [newline]

/-- `getline` stops at the first newline, or at the end of the data. -/
def deserialize (data : Bytes) : IpcMessage where
  type := data.takeWhile (· ≠ newline)

end IpcProtocol

inductive IpcEvent
  | handled (request : Bytes)
  | wrote (response : Bytes)
  deriving DecidableEq, Repr

namespace UnixSocketServer

variable {ε : Type}

/-- `handle_client` with the bytes its one `read` returns. An exception of the
request handler leaves it. -/
def handleClient (requestHandler : Option (Bytes → Except ε Bytes))
    (received : Option Bytes) : Traced IpcEvent (Except ε Unit) :=
  match received with
  | none | some [] => pure (.ok ())
  | some buffer =>
      let request := IpcProtocol.deserialize (CString.text buffer)
      match requestHandler with
      | some handler => do
          Traced.log (.handled request.type)
          match handler request.type with
          | .ok response => do
              Traced.log (.wrote response)
              pure (.ok ())
          | .error thrown => pure (.error thrown)
      | none => do
          Traced.log (.wrote (IpcProtocol.serialize { type := bytes "error" }))
          pure (.ok ())

/-- `serve_forever` over the clients it accepts, each with the state the
request handler then finds. Nothing in it catches. -/
def serveForever {σ : Type} (requestHandler : σ → Bytes → Except ε Bytes) :
    List (σ × Option Bytes) → Traced IpcEvent (Except ε Unit)
  | [] => pure (.ok ())
  | (state, received) :: clients => do
      let answer ← handleClient (some (requestHandler state)) received
      match answer with
      | .ok () => serveForever requestHandler clients
      | .error thrown => pure (.error thrown)

theorem value_handleClient_eq_ok {requestHandler : Bytes → Except ε Bytes}
    {received : Option Bytes} :
    (handleClient (some requestHandler) received).value = .ok () ↔
      ∀ buffer, received = some buffer → buffer ≠ [] →
        ∃ response, requestHandler
          (IpcProtocol.deserialize (CString.text buffer)).type =
            .ok response := by
  cases received with
  | none => simp [handleClient]
  | some buffer =>
      cases buffer with
      | nil => simp [handleClient]
      | cons b rest =>
          simp only [handleClient, value_bind]
          cases hanswer : requestHandler
              (IpcProtocol.deserialize (CString.text (b :: rest))).type with
          | ok response => simp [hanswer]
          | error thrown => simp [hanswer]

/-- The loop goes on as long as no request makes the handler throw. -/
theorem value_serveForever_eq_ok {σ : Type}
    {requestHandler : σ → Bytes → Except ε Bytes}
    {clients : List (σ × Option Bytes)} :
    (serveForever requestHandler clients).value = .ok () ↔
      ∀ client ∈ clients,
        (handleClient (some (requestHandler client.1)) client.2).value =
          .ok () := by
  induction clients with
  | nil => simp [serveForever]
  | cons client clients ih =>
      obtain ⟨state, received⟩ := client
      rw [List.forall_mem_cons, ← ih, serveForever, value_bind]
      cases (handleClient (some (requestHandler state)) received).value with
      | ok => simp
      | error thrown => simp

end UnixSocketServer

end HeidiKernel
