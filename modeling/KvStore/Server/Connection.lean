/-
KvStore.Server.Connection — `TCPServer::HandleConnection` of
`server/tcp_server.cpp`: one client connection, kept open for as many
requests as the client sends (the source's "pipelining"), with the
coordinator's `HandleRequest` as the handler `main` installs.

The socket is the bytes the client sends, in order. `RecvMessage` takes a
frame off their front (`KvStore.Protocol.recvMessage`) and `SendMessage`
writes the response's frame. The loop ends at the first `RecvMessage` that
fails: the client closed, sent a partial frame, or sent a length over
`MAX_MESSAGE_SIZE`. It terminates because every frame takes at least its
4-byte header (`recvMessage_length`).

## What the loop does

* `recvMessage_eq_some`: `RecvMessage` accepts exactly the frames
  `SendMessage` writes for payloads of at most 64 MiB, so what it takes
  frames again to the bytes it consumed.
* `splitFrames` is that framing read over a whole stream: the payloads of
  the frames `RecvMessage` takes in turn, and the tail where it stops.
  `splitFrames_round_trip` says it inverts the framing both ways.
* `pipelined_responses_read_in_order`: a client that pipelines requests
  and reads the output back with the same framing gets one response per
  request, in order, each the answer on the state the requests before it
  left (`answerAll`), and nothing more. Requests pipelined behind an
  oversized frame are never read (`oversized_request_closes_connection`).
* `handleConnection_output_prefix`: the answer to a request is written
  before anything after it is read, so a client that waits for each
  response before it sends the next request (`KVClient::SendRequest`) gets
  every one.
* `sendRequest_eq_handleConnection`: the one-request exchange
  `KvStore.Cluster.sendRequest`, on which the replication results rest, is
  this loop run on the one frame the client sends, the client reading the
  first frame that comes back.

Left out: `running_` turning false on `Stop()`, and a `SendMessage` that
fails because the client went away. Both end the loop early; a stream of
bytes has neither.
-/
import KvStore.Cluster.Wire
import KvStore.Storage.Crc

namespace KvStore.Server

open Protocol Protocol.ByteBuffer Storage

/-! ## 1. Frames -/

theorem takeBytes_eq_some_append {n : Nat} {bs a r : Bytes} (h : takeBytes n bs = some (a, r)) :
    bs = a ++ r ∧ a.length = n := by
  obtain ⟨hn, rfl, rfl⟩ := takeBytes_eq_some.mp h
  exact ⟨(List.take_append_drop n bs).symm, by simp only [List.length_take]; omega⟩

/-- `RecvMessage` takes a buffer off a stream exactly when the stream starts
with the frame `SendMessage` writes for it, within the cap. -/
theorem recvMessage_eq_some {stream rest : Bytes} {b : ByteBuffer} :
    recvMessage stream = some (b, rest) ↔ ∃ p : Bytes, b = ofData p ∧
      p.length ≤ Config.maxMessageSize ∧ stream = sendMessage (ofData p) ++ rest := by
  constructor
  · intro h
    simp only [recvMessage, Option.bind_eq_bind, Option.bind_eq_some, Prod.exists] at h
    obtain ⟨lb, r, h₁, h₂⟩ := h
    split_ifs at h₂ with hcap
    simp only [Option.bind_eq_some, Option.pure_def, Option.some.injEq, Prod.exists,
      Prod.mk.injEq] at h₂
    obtain ⟨p, r', h₃, rfl, rfl⟩ := h₂
    obtain ⟨rfl, hl⟩ := takeBytes_eq_some_append h₁
    obtain ⟨rfl, hp⟩ := takeBytes_eq_some_append h₃
    have hlt : p.length < 2 ^ 32 := by have := ofBytesBE_lt lb; rw [hl] at this; omega
    refine ⟨p, rfl, by omega, ?_⟩
    rw [sendMessage, List.append_assoc, size, ofData, UInt32.toNat_ofNat_of_lt hlt, hp, ← hl,
      toBytesBE_ofBytesBE]
  · rintro ⟨p, rfl, hp, rfl⟩
    exact recvMessage_sendMessage (ofData p) rest hp

theorem recvMessage_length {stream rest : Bytes} {b : ByteBuffer}
    (h : recvMessage stream = some (b, rest)) : rest.length + 4 ≤ stream.length := by
  obtain ⟨p, -, -, rfl⟩ := recvMessage_eq_some.mp h
  simp only [sendMessage, List.length_append, length_toBytesBE]
  omega

/-- A frame received from a stream is received the same way from any
extension of it. -/
theorem recvMessage_append {stream rest : Bytes} {b : ByteBuffer}
    (h : recvMessage stream = some (b, rest)) (more : Bytes) :
    recvMessage (stream ++ more) = some (b, rest ++ more) := by
  obtain ⟨p, rfl, hp, rfl⟩ := recvMessage_eq_some.mp h
  exact recvMessage_eq_some.mpr ⟨p, rfl, hp, List.append_assoc _ _ _⟩

/-- The bytes `SendMessage` writes for each payload in turn. -/
def frames (payloads : List Bytes) : Bytes :=
  (payloads.map fun p => sendMessage (ofData p)).flatten

@[simp] theorem ofData_data (p : Bytes) : (ofData p).data = p := rfl

@[simp] theorem frames_nil : frames [] = [] := rfl

@[simp] theorem frames_cons (p : Bytes) (ps : List Bytes) :
    frames (p :: ps) = sendMessage (ofData p) ++ frames ps := rfl

/-- The framing read over a whole stream: the payload of each frame
`RecvMessage` takes in turn, and the bytes where it first fails. -/
def splitFrames (stream : Bytes) : List Bytes × Bytes :=
  match _h : recvMessage stream with
  | none => ([], stream)
  | some (request, rest) => (request.data :: (splitFrames rest).1, (splitFrames rest).2)
termination_by stream.length
decreasing_by have := recvMessage_length _h; omega

theorem splitFrames_of_none {stream : Bytes} (h : recvMessage stream = none) :
    splitFrames stream = ([], stream) := by
  rw [splitFrames]; split <;> simp_all

theorem splitFrames_of_some {stream rest : Bytes} {request : ByteBuffer}
    (h : recvMessage stream = some (request, rest)) :
    splitFrames stream = (request.data :: (splitFrames rest).1, (splitFrames rest).2) := by
  rw [splitFrames]; split <;> simp_all

/-- Frames within the cap, followed by bytes that are not a frame, split
back into those payloads and those bytes. -/
theorem splitFrames_frames_append (payloads : List Bytes) (tail : Bytes)
    (hcap : ∀ p ∈ payloads, p.length ≤ Config.maxMessageSize) (htail : recvMessage tail = none) :
    splitFrames (frames payloads ++ tail) = (payloads, tail) := by
  induction payloads with
  | nil => exact splitFrames_of_none htail
  | cons p ps ih =>
    rw [frames_cons, List.append_assoc, splitFrames_of_some
      (recvMessage_sendMessage (ofData p) _ (hcap p (List.mem_cons_self _ _))),
      ih fun q hq => hcap q (List.mem_cons_of_mem _ hq)]
    rfl

/-- The framing and its reading are inverse: frames within the cap followed
by bytes that are not a frame split back into those payloads and bytes, and
every stream is the frames of its split followed by its tail. -/
theorem splitFrames_round_trip :
    (∀ (payloads : List Bytes) (tail : Bytes),
      (∀ p ∈ payloads, p.length ≤ Config.maxMessageSize) → recvMessage tail = none →
        splitFrames (frames payloads ++ tail) = (payloads, tail)) ∧
    (∀ stream : Bytes, stream = frames (splitFrames stream).1 ++ (splitFrames stream).2 ∧
      (∀ p ∈ (splitFrames stream).1, p.length ≤ Config.maxMessageSize) ∧
      recvMessage (splitFrames stream).2 = none) := by
  refine ⟨splitFrames_frames_append, fun stream => ?_⟩
  induction stream using splitFrames.induct with
  | case1 stream h => simp [splitFrames_of_none h, h]
  | case2 stream request rest h ih =>
    obtain ⟨p, rfl, hp, rfl⟩ := recvMessage_eq_some.mp h
    rw [splitFrames_of_some h]
    obtain ⟨h₁, h₂, h₃⟩ := ih
    refine ⟨by rw [frames_cons, List.append_assoc, ← h₁]; rfl, ?_, h₃⟩
    rintro q (_ | ⟨_, hq⟩)
    exacts [hp, h₂ q hq]

theorem splitFrames_get_frame :
    (∀ p ∈ [(KVClient.get (Bytes.ofString "k")).data], p.length ≤ Config.maxMessageSize) ∧
    recvMessage [] = none ∧
    splitFrames (frames [(KVClient.get (Bytes.ofString "k")).data] ++ []) =
      ([(KVClient.get (Bytes.ofString "k")).data], []) :=
  ⟨by decide, rfl, splitFrames_round_trip.1 _ _ (by decide) rfl⟩

/-! ## 2. The loop -/

/-- `RequestHandler`, the callback `TCPServer` keeps in `handler_`, over the
state it reads and changes; `none` until `SetHandler` installs one. -/
abbrev RequestHandler (σ : Type) := Option (σ → ByteBuffer → ByteBuffer × σ)

/-- The handler `main` installs: `coordinator.HandleRequest(req)`. -/
def coordinatorHandler (repl : Replication) : RequestHandler Node := some (Node.handleRequest repl)

/-- One turn's response: `handler_(*request)`, or
`MakeErrorResponse("No handler configured")` when no handler is set. -/
def answer {σ : Type} (handler : RequestHandler σ) (s : σ) (request : ByteBuffer) :
    ByteBuffer × σ :=
  match handler with
  | some f => f s request
  | none => (makeErrorResponse (Bytes.ofString "No handler configured"), s)

/-- `TCPServer::HandleConnection` on the bytes the client sends: receive a
frame, answer it, send the response, until `RecvMessage` fails. The bytes
written back, and the state after the last request. -/
def handleConnection {σ : Type} (handler : RequestHandler σ) (s : σ) (stream : Bytes) :
    Bytes × σ :=
  match _h : recvMessage stream with
  | none => ([], s)
  | some (request, rest) =>
    let (response, s') := answer handler s request
    let (out, s'') := handleConnection handler s' rest
    (sendMessage response ++ out, s'')
termination_by stream.length
decreasing_by have := recvMessage_length _h; omega

/-- The requests answered one after another, each on the state the one
before it left: the responses and the final state. -/
def answerAll {σ : Type} (handler : RequestHandler σ) : σ → List ByteBuffer → List ByteBuffer × σ
  | s, [] => ([], s)
  | s, r :: rs =>
    let (resp, s') := answer handler s r
    let (resps, s'') := answerAll handler s' rs
    (resp :: resps, s'')

theorem handleConnection_of_none {σ : Type} (handler : RequestHandler σ) (s : σ) {stream : Bytes}
    (h : recvMessage stream = none) : handleConnection handler s stream = ([], s) := by
  rw [handleConnection]; split <;> simp_all

theorem handleConnection_of_some {σ : Type} (handler : RequestHandler σ) (s : σ)
    {stream rest : Bytes} {request : ByteBuffer} (h : recvMessage stream = some (request, rest)) :
    handleConnection handler s stream =
      (sendMessage (answer handler s request).1 ++
        (handleConnection handler (answer handler s request).2 rest).1,
        (handleConnection handler (answer handler s request).2 rest).2) := by
  rw [handleConnection]; split <;> simp_all

/-! ## 3. Pipelined requests -/

/-- Frames the client pipelined, then anything: the frames are answered in
order, then the loop goes on from the state they leave. -/
theorem handleConnection_frames_append {σ : Type} (handler : RequestHandler σ)
    (payloads : List Bytes) (hcap : ∀ p ∈ payloads, p.length ≤ Config.maxMessageSize)
    (more : Bytes) (s : σ) :
    handleConnection handler s (frames payloads ++ more) =
      (((answerAll handler s (payloads.map ofData)).1.map sendMessage).flatten ++
          (handleConnection handler (answerAll handler s (payloads.map ofData)).2 more).1,
        (handleConnection handler (answerAll handler s (payloads.map ofData)).2 more).2) := by
  induction payloads generalizing s with
  | nil => rfl
  | cons p ps ih =>
    rw [frames_cons, List.append_assoc, handleConnection_of_some handler s
        (recvMessage_sendMessage (ofData p) _ (hcap p (List.mem_cons_self _ _))),
      ih (fun q hq => hcap q (List.mem_cons_of_mem _ hq))]
    simp only [answerAll, List.map_cons, List.flatten_cons, List.append_assoc]
    rfl

/-- The response frames are the frames of the responses' payloads. -/
theorem frames_map_data (responses : List ByteBuffer) :
    frames (responses.map (·.data)) = (responses.map sendMessage).flatten := by
  rw [frames, List.map_map]
  rfl

/-- Pipelining end to end: a client that writes its requests back to back,
then closes or stops inside a frame, and reads the connection's output
frame by frame gets one response per request, in request order, each the
handler's answer on the state the requests before it left, and nothing
after them; the server ends in the state the last request left. A response
over the cap would be written but refused by the client's `RecvMessage`. -/
theorem pipelined_responses_read_in_order {σ : Type} (handler : RequestHandler σ) (s : σ)
    (payloads : List Bytes) (hcap : ∀ p ∈ payloads, p.length ≤ Config.maxMessageSize)
    (tail : Bytes) (htail : recvMessage tail = none)
    (hresp : ∀ r ∈ (answerAll handler s (payloads.map ofData)).1,
      r.size ≤ Config.maxMessageSize) :
    splitFrames (handleConnection handler s (frames payloads ++ tail)).1 =
        ((answerAll handler s (payloads.map ofData)).1.map (·.data), []) ∧
      (handleConnection handler s (frames payloads ++ tail)).2 =
        (answerAll handler s (payloads.map ofData)).2 := by
  rw [handleConnection_frames_append handler payloads hcap, handleConnection_of_none handler _ htail,
    List.append_nil, ← frames_map_data, ← List.append_nil (frames _)]
  exact ⟨splitFrames_frames_append _ [] (List.forall_mem_map.mpr hresp) rfl, rfl⟩

/-- Two `GET`s pipelined to the coordinator of a node come back as its two
answers, in order. -/
theorem pipelined_gets_answered :
    (∀ p ∈ [(KVClient.get (Bytes.ofString "k")).data, (KVClient.get (Bytes.ofString "j")).data],
      p.length ≤ Config.maxMessageSize) ∧
    recvMessage [] = none ∧
    (∀ r ∈ (answerAll (coordinatorHandler Cluster.okReplication) Cluster.staleReplica
        ([(KVClient.get (Bytes.ofString "k")).data, (KVClient.get (Bytes.ofString "j")).data].map
          ofData)).1, r.size ≤ Config.maxMessageSize) ∧
    splitFrames (handleConnection (coordinatorHandler Cluster.okReplication) Cluster.staleReplica
        (frames [(KVClient.get (Bytes.ofString "k")).data, (KVClient.get (Bytes.ofString "j")).data]
          ++ [])).1 =
      ((answerAll (coordinatorHandler Cluster.okReplication) Cluster.staleReplica
        ([(KVClient.get (Bytes.ofString "k")).data, (KVClient.get (Bytes.ofString "j")).data].map
          ofData)).1.map (·.data), []) :=
  have hresp : ∀ r ∈ (answerAll (coordinatorHandler Cluster.okReplication) Cluster.staleReplica
      ([(KVClient.get (Bytes.ofString "k")).data, (KVClient.get (Bytes.ofString "j")).data].map
        ofData)).1, r.size ≤ Config.maxMessageSize := by decide
  ⟨by decide, rfl, hresp,
    (pipelined_responses_read_in_order _ _ _ (by decide) [] rfl hresp).1⟩

/-- A request over the cap ends the connection: the requests pipelined
before it are answered, and none after it is read, well-formed or not. -/
theorem oversized_request_closes_connection {σ : Type} (handler : RequestHandler σ) (s : σ)
    (payloads : List Bytes) (hcap : ∀ p ∈ payloads, p.length ≤ Config.maxMessageSize)
    (big : ByteBuffer) (hbig : Config.maxMessageSize < big.size) (hlt : big.size < 2 ^ 32)
    (more : Bytes) :
    handleConnection handler s (frames payloads ++ (sendMessage big ++ more)) =
      (((answerAll handler s (payloads.map ofData)).1.map sendMessage).flatten,
        (answerAll handler s (payloads.map ofData)).2) := by
  rw [handleConnection_frames_append handler payloads hcap,
    handleConnection_of_none handler _ (recvMessage_of_too_big big more hbig hlt), List.append_nil]

/-- A `PUT` whose value alone fills the cap. -/
def oversizedPut : ByteBuffer := KVClient.put (Bytes.ofString "k") (List.replicate Config.maxMessageSize 0)

/-- A `GET` pipelined behind an oversized `PUT` is never answered; the one
before it is. -/
theorem get_behind_oversized_put_dropped :
    (∀ p ∈ [(KVClient.get (Bytes.ofString "k")).data], p.length ≤ Config.maxMessageSize) ∧
    Config.maxMessageSize < oversizedPut.size ∧ oversizedPut.size < 2 ^ 32 ∧
    handleConnection (coordinatorHandler Cluster.okReplication) Cluster.staleReplica
        (frames [(KVClient.get (Bytes.ofString "k")).data] ++
          (sendMessage oversizedPut ++ sendMessage (KVClient.get (Bytes.ofString "k")))) =
      (((answerAll (coordinatorHandler Cluster.okReplication) Cluster.staleReplica
          ([(KVClient.get (Bytes.ofString "k")).data].map ofData)).1.map sendMessage).flatten,
        (answerAll (coordinatorHandler Cluster.okReplication) Cluster.staleReplica
          ([(KVClient.get (Bytes.ofString "k")).data].map ofData)).2) :=
  have hs : oversizedPut.size = 10 + Config.maxMessageSize := by
    rw [oversizedPut, Cluster.put_size, List.length_replicate]; rfl
  have hmax : Config.maxMessageSize = 67108864 := rfl
  ⟨by decide, by omega, by omega,
    oversized_request_closes_connection _ _ _ (by decide) _ (by omega) (by omega) _⟩

/-! ## 4. Answers before later reads -/

/-- What the connection writes for a prefix of the input is a prefix of what
it writes for the whole input. -/
theorem handleConnection_output_prefix {σ : Type} (handler : RequestHandler σ) (s : σ)
    (stream more : Bytes) :
    ∃ out, (handleConnection handler s (stream ++ more)).1 =
      (handleConnection handler s stream).1 ++ out := by
  induction s, stream using handleConnection.induct handler with
  | case1 s stream h => exact ⟨_, by rw [handleConnection_of_none handler s h]; rfl⟩
  | case2 s stream request rest h response s' ha out s'' hc ih =>
    obtain ⟨o, ho⟩ := ih
    refine ⟨o, ?_⟩
    rw [handleConnection_of_some handler s (recvMessage_append h more),
      handleConnection_of_some handler s h, ha, ho, List.append_assoc]

/-! ## 5. One request, one response -/

/-- The exchange `sendRequest` of the replication model is the connection
loop run on the request's frame, the client taking the first frame of the
answer: for every request whose size its `uint32_t` header holds. -/
theorem sendRequest_eq_handleConnection (repl : Replication) (replica : Node)
    (request : ByteBuffer) (h : request.size < 2 ^ 32) :
    Cluster.sendRequest repl replica request =
      ((recvMessage (handleConnection (coordinatorHandler repl) replica (sendMessage request)).1).map
          (·.1),
        (handleConnection (coordinatorHandler repl) replica (sendMessage request)).2) := by
  by_cases hcap : request.size ≤ Config.maxMessageSize
  · have hs := recvMessage_sendMessage request [] hcap
    rw [List.append_nil] at hs
    rw [Cluster.sendRequest_eq repl replica request hcap, handleConnection_of_some _ replica hs,
      handleConnection_of_none _ _ (show recvMessage [] = none from rfl), List.append_nil]
    rfl
  · have hs := recvMessage_of_too_big request [] (by omega) h
    rw [List.append_nil] at hs
    rw [handleConnection_of_none _ replica hs]
    simp only [Cluster.sendRequest, hs]
    rfl

theorem sendRequest_eq_handleConnection_get :
    (KVClient.get (Bytes.ofString "k")).size < 2 ^ 32 ∧
    Cluster.sendRequest Cluster.okReplication Cluster.staleReplica (KVClient.get (Bytes.ofString "k")) =
      ((recvMessage (handleConnection (coordinatorHandler Cluster.okReplication) Cluster.staleReplica
          (sendMessage (KVClient.get (Bytes.ofString "k")))).1).map (·.1),
        (handleConnection (coordinatorHandler Cluster.okReplication) Cluster.staleReplica
          (sendMessage (KVClient.get (Bytes.ofString "k")))).2) :=
  ⟨by decide, sendRequest_eq_handleConnection _ _ _ (by decide)⟩

end KvStore.Server
