import HeidiKernel.Data.Span
import HeidiKernel.Ipc.UnixSocket

namespace HeidiKernel

open HeidiKernel.Transition
open HeidiKernel.Data

/-! A request line on a stream that delivers it in segments. Both servers read
once and take what that read returned for the whole request. -/

/-- The bytes of a stream in the segments in which they arrive. -/
structure Splitting (data : Bytes) where
  segments : List Bytes
  nonempty : ∀ segment ∈ segments, segment ≠ []
  flatten_eq : segments.flatten = data

namespace Splitting

variable {data : Bytes} (s : Splitting data)

def first : Bytes := s.segments.headD []

/-- What a `read` of at most `capacity` bytes returns first. -/
def firstRead (capacity : Nat) : Bytes := s.first.take capacity

theorem first_prefix : s.first <+: data := by
  obtain ⟨segments, hnonempty, rfl⟩ := s
  cases segments with
  | nil => exact List.prefix_rfl
  | cons segment rest => exact List.prefix_append _ _

theorem first_ne_nil (hdata : data ≠ []) : s.first ≠ [] := by
  obtain ⟨segments, hnonempty, rfl⟩ := s
  cases segments with
  | nil => exact absurd rfl hdata
  | cons segment rest => exact hnonempty segment List.mem_cons_self

theorem firstRead_eq {capacity : Nat} (hfits : data.length ≤ capacity) :
    s.firstRead capacity = s.first :=
  List.take_of_length_le (s.first_prefix.length_le.trans hfits)

end Splitting

/-- The lines both servers can carry: no NUL, no line end. -/
def PlainLine (line : Bytes) : Prop :=
  ∀ b ∈ line, b ≠ 0 ∧ isLineEnd b = false

namespace PlainLine

variable {line front : Bytes} (h : PlainLine line)

include h

theorem text_of_prefix (hfront : front <+: line ++ [newline]) :
    CString.text front = front := by
  refine List.takeWhile_eq_self_iff.mpr fun b hb => ?_
  rcases List.mem_append.mp (hfront.subset hb) with hline | hend
  · simpa using (h b hline).1
  · rw [List.mem_singleton.mp hend]
    rfl

/-- Whatever front of the line has arrived is taken for the request. -/
theorem deserialize_of_prefix (hfront : front <+: line ++ [newline]) :
    (IpcProtocol.deserialize (CString.text front)).type =
      front.take line.length := by
  have hplain : ∀ b ∈ line, (b ≠ newline : Bool) = true := by
    intro b hb
    have hend := (h b hb).2
    simp only [isLineEnd, Bool.or_eq_false_iff, decide_eq_false_iff_not]
      at hend
    simpa using hend.1
  rw [h.text_of_prefix hfront, IpcProtocol.deserialize]
  rcases List.prefix_concat_iff.mp hfront with rfl | hshort
  · rw [takeWhile_span_cons hplain (by simp)]
    simp
  · rw [List.take_of_length_le hshort.length_le]
    exact List.takeWhile_eq_self_iff.mpr fun b hb =>
      hplain b (hshort.subset hb)

theorem requestText_of_prefix (hfront : front <+: line ++ [newline]) :
    requestText front = front.take line.length := by
  have hself : ∀ part : Bytes, part <+: line →
      part.rdropWhile isLineEnd = part := by
    intro part hpart
    refine List.rdropWhile_eq_self_iff.mpr fun hne => ?_
    rw [(h _ (hpart.subset (List.getLast_mem hne))).2]
    exact Bool.false_ne_true
  rw [requestText, h.text_of_prefix hfront]
  rcases List.prefix_concat_iff.mp hfront with rfl | hshort
  · rw [List.rdropWhile_concat_pos _ _ _ rfl, hself line List.prefix_rfl]
    simp
  · rw [hself front hshort, List.take_of_length_le hshort.length_le]

end PlainLine

theorem take_eq_iff_of_prefix {line front rest : Bytes}
    (hfront : front <+: line ++ rest) :
    front.take line.length = line ↔ line.length ≤ front.length := by
  constructor
  · intro h
    have hlength := congrArg List.length h
    rw [List.length_take] at hlength
    omega
  · intro hlength
    obtain ⟨later, hlater⟩ := hfront
    have htake := congrArg (List.take line.length) hlater
    rwa [List.take_append_of_le_length hlength, List.take_left] at htake

def ipcBufferSize : Nat := 1024

def clientBufferSize : Nat := 128

def IpcEvent.handled? : IpcEvent → Option Bytes
  | .handled request => some request
  | .wrote _ => none

def SocketEvent.dispatched? : SocketEvent → Option Bytes
  | .dispatched _ request => some request
  | .accepted _ | .wrote .. | .closed _ => none

/-- What one read returns is the one request that is handled. -/
theorem handled_handleClient {ε : Type} (handler : Bytes → Except ε Bytes)
    {buffer : Bytes} (hread : buffer ≠ []) :
    (UnixSocketServer.handleClient (some handler)
      (some buffer)).events.filterMap IpcEvent.handled? =
        [(IpcProtocol.deserialize (CString.text buffer)).type] := by
  obtain ⟨b, rest, rfl⟩ := List.exists_cons_of_ne_nil hread
  simp only [UnixSocketServer.handleClient]
  generalize (IpcProtocol.deserialize (CString.text (b :: rest))).type =
    request
  cases hanswer : handler request <;> simp [IpcEvent.handled?]

theorem dispatched_handleClient (status : KernelStatus)
    (readings : StatusReadings) (clientFd : Int) (subscribers : List Int)
    {buffer : Bytes} (hread : buffer ≠ []) :
    (handleClient status readings clientFd
      { ready := 1, received := some buffer } subscribers).events.filterMap
        SocketEvent.dispatched? = [requestText buffer] := by
  rw [handleClient_read status readings clientFd subscribers Int.one_pos rfl
    hread]
  cases status.response readings (requestText buffer) <;>
    simp [SocketEvent.dispatched?]

section Servers

variable {line : Bytes} (s : Splitting (line ++ [newline]))

/-- The request handler sees the line and nothing else. -/
def UnixSocketServer.Frames {ε : Type} (handler : Bytes → Except ε Bytes) :
    Prop :=
  (UnixSocketServer.handleClient (some handler)
    (some (s.firstRead (ipcBufferSize - 1)))).events.filterMap
      IpcEvent.handled? = [line]

/-- The command dispatch sees the line and nothing else. -/
def StatusSocket.Frames (status : KernelStatus) (readings : StatusReadings)
    (clientFd : Int) (subscribers : List Int) : Prop :=
  (handleClient status readings clientFd
    { ready := 1, received := some (s.firstRead (clientBufferSize - 1)) }
    subscribers).events.filterMap SocketEvent.dispatched? = [line]

theorem Splitting.firstRead_ne_nil {capacity : Nat}
    (hfits : line.length + 1 ≤ capacity) : s.firstRead capacity ≠ [] := by
  rw [s.firstRead_eq (by simpa using hfits)]
  exact s.first_ne_nil (List.concat_ne_nil newline line)

variable (hplain : PlainLine line)

include hplain

theorem UnixSocketServer.frames_iff {ε : Type}
    (handler : Bytes → Except ε Bytes)
    (hfits : line.length + 1 ≤ ipcBufferSize - 1) :
    UnixSocketServer.Frames s handler ↔ line.length ≤ s.first.length := by
  rw [Frames, handled_handleClient handler (s.firstRead_ne_nil hfits),
    s.firstRead_eq (by simpa using hfits),
    hplain.deserialize_of_prefix s.first_prefix, List.singleton_inj]
  exact take_eq_iff_of_prefix s.first_prefix

theorem StatusSocket.frames_iff (status : KernelStatus)
    (readings : StatusReadings) (clientFd : Int) (subscribers : List Int)
    (hfits : line.length + 1 ≤ clientBufferSize - 1) :
    StatusSocket.Frames s status readings clientFd subscribers ↔
      line.length ≤ s.first.length := by
  rw [Frames, dispatched_handleClient status readings clientFd subscribers
      (s.firstRead_ne_nil hfits),
    s.firstRead_eq (by simpa using hfits),
    hplain.requestText_of_prefix s.first_prefix, List.singleton_inj]
  exact take_eq_iff_of_prefix s.first_prefix

/-- Either server handles exactly the line if and only if the whole line is in
the first segment. -/
theorem line_framed_iff :
    (line.length + 1 ≤ ipcBufferSize - 1 →
      ∀ {ε : Type} (handler : Bytes → Except ε Bytes),
        UnixSocketServer.Frames s handler ↔ line.length ≤ s.first.length) ∧
      (line.length + 1 ≤ clientBufferSize - 1 →
        ∀ status readings clientFd subscribers,
          StatusSocket.Frames s status readings clientFd subscribers ↔
            line.length ≤ s.first.length) :=
  ⟨fun hfits _ handler =>
      UnixSocketServer.frames_iff s hplain handler hfits,
    fun hfits status readings clientFd subscribers =>
      StatusSocket.frames_iff s hplain status readings clientFd subscribers
        hfits⟩

end Servers

section Ping

/-! The request `ping`, in one segment and in two. -/

def wholePing : Splitting (bytes "ping" ++ [newline]) where
  segments := [bytes "ping\n"]
  nonempty := by decide +kernel
  flatten_eq := by decide +kernel

def splitPing : Splitting (bytes "ping" ++ [newline]) where
  segments := [bytes "pi", bytes "ng\n"]
  nonempty := by decide +kernel
  flatten_eq := by decide +kernel

def noAnswer (_ : Bytes) : Except Empty Bytes := .ok []

theorem plainLine_ping : PlainLine (bytes "ping") := by
  have hping : bytes "ping" = [112, 105, 110, 103] := by decide +kernel
  rw [hping]
  simp only [PlainLine, List.forall_mem_cons]
  exact ⟨by decide, by decide, by decide, by decide, List.forall_mem_nil _⟩

theorem whole_ping_framed :
    UnixSocketServer.Frames wholePing noAnswer ∧
      StatusSocket.Frames wholePing {} {} 5 [] := by
  have hframed := line_framed_iff wholePing plainLine_ping
  have hwhole : (bytes "ping").length ≤ wholePing.first.length := by
    decide +kernel
  exact ⟨(hframed.1 (by decide +kernel) noAnswer).mpr hwhole,
    (hframed.2 (by decide +kernel) {} {} 5 []).mpr hwhole⟩

theorem split_ping_misread :
    ¬ (∀ line, PlainLine line → ∀ s : Splitting (line ++ [newline]),
        line.length + 1 ≤ ipcBufferSize - 1 →
          UnixSocketServer.Frames s noAnswer) ∧
      ¬ ∀ line, PlainLine line → ∀ s : Splitting (line ++ [newline]),
        line.length + 1 ≤ clientBufferSize - 1 →
          StatusSocket.Frames s {} {} 5 [] := by
  constructor <;> intro h
  · have hframed := h (bytes "ping") plainLine_ping splitPing
      (by decide +kernel)
    revert hframed
    unfold UnixSocketServer.Frames
    decide +kernel
  · have hframed := h (bytes "ping") plainLine_ping splitPing
      (by decide +kernel)
    revert hframed
    unfold StatusSocket.Frames
    decide +kernel

end Ping

end HeidiKernel
