import Goble.Lib.Machine
import Goble.Pty.Protocol

/-!
# The client's requests and its other messages

The client side of a connection. Reads and writes are synchronous; events may arrive between a
request and its response, so `request` reads past them into a buffer and `next_message` returns
them first. The daemon runs meanwhile, so the model takes one read at a time: between two turns
of `request`'s loop anything may arrive, and a read may fail.

* `ServerMessage.answers` — the test of the loop;
* `ClientRun` — the client, what its socket still holds, and the history of the connection;
* `request_correlation` — along every run in which the daemon answers each id once: a request
  returns its own response, and what `next_message` returned, what is buffered and what is still
  unread are together the stream without the responses returned, in order.
-/

namespace Goble.Pty

def Request.id : Request → Nat
  | .hello id _ | .list id | .create id .. | .attach id .. | .detach id _ | .input id ..
  | .resize id .. | .kill id _ | .signal id .. => id

variable {m : ServerMessage}

namespace ServerMessage

def answers (id : Nat) : ServerMessage → Bool
  | .ok got _ | .sessions got _ => got == id
  | .error (some got) _ => got == id
  | _ => false

/-- The id a response carries. -/
def reply : ServerMessage → Option Nat
  | .ok id _ | .sessions id _ => some id
  | .error id _ => id
  | _ => none

theorem answers_iff {id : Nat} : m.answers id = true ↔ m.reply = some id := by
  cases m with
  | ok | sessions => simp [answers, reply]
  | error got => cases got <;> simp [answers, reply]
  | _ => simp [answers, reply]

/-- A response carries one id. -/
theorem answers_unique {i j : Nat} (hi : m.answers i = true) (hj : m.answers j = true) : i = j :=
  Option.some.inj ((answers_iff.mp hi).symm.trans (answers_iff.mp hj))

end ServerMessage

/-- A connection to the daemon: what was read past, and the next id. -/
structure Client where
  buffered : List ServerMessage
  nextId : Nat
deriving DecidableEq, Repr

def Client.connect : Client := ⟨[], 1⟩

/-- One turn of `request`'s loop, with the message it read: the response, or one more message
in the buffer. -/
def Client.turn (client : Client) (id : Nat) (message : ServerMessage) :
    Option ServerMessage × Client :=
  if message.answers id then (some message, client)
  else (none, { client with buffered := client.buffered ++ [message] })

structure ClientRun where
  client : Client
  waiting : Option Nat
  inbound : List ServerMessage
  sent : List Nat
  stream : List ServerMessage
  /-- The responses `request` returned, with the id of the request. -/
  returned : List (Nat × ServerMessage)
  /-- The messages `next_message` returned. -/
  received : List ServerMessage
deriving DecidableEq, Repr

inductive ClientOp where
  | nextId
  /-- `send`, without waiting. -/
  | send (request : Request)
  /-- `request`, up to its first read. -/
  | request (request : Request)
  | read
  /-- A read of `request` fails or times out. -/
  | readFailed
  | nextMessage
  | emit (message : ServerMessage)
deriving DecidableEq, Repr

namespace ClientRun

def init : ClientRun := ⟨.connect, none, [], [], [], [], []⟩

/-- The daemon may send the message: a response answers a request that was sent and has had no
answer. -/
def owed (s : ClientRun) (message : ServerMessage) : Bool :=
  match message.reply with
  | none => true
  | some id => decide (id ∈ s.sent) && s.stream.all fun m => !m.answers id

def nextMessage (s : ClientRun) : Option ClientRun :=
  match s.client.buffered with
  | message :: buffered =>
    some { s with client := { s.client with buffered }, received := s.received ++ [message] }
  | [] =>
    match s.inbound with
    | [] => none
    | message :: inbound => some { s with inbound, received := s.received ++ [message] }

def read (s : ClientRun) (id : Nat) : Option ClientRun :=
  match s.inbound with
  | [] => none
  | message :: inbound =>
    match s.client.turn id message with
    | (some response, client) =>
      some { s with client, inbound, waiting := none, returned := s.returned ++ [(id, response)] }
    | (none, client) => some { s with client, inbound }

def step (s : ClientRun) : ClientOp → Option ClientRun
  | .nextId =>
    if s.waiting = none then
      some { s with client := { s.client with nextId := s.client.nextId + 1 } }
    else none
  | .send request =>
    if s.waiting = none then some { s with sent := s.sent ++ [request.id] } else none
  | .request request =>
    if s.waiting = none then
      some { s with sent := s.sent ++ [request.id], waiting := some request.id }
    else none
  | .read => s.waiting.bind s.read
  | .readFailed => s.waiting.map fun _ => { s with waiting := none }
  | .nextMessage => if s.waiting = none then s.nextMessage else none
  | .emit message =>
    if s.owed message then
      some { s with inbound := s.inbound ++ [message], stream := s.stream ++ [message] }
    else none

end ClientRun

/-- The client and the daemon's end of its connection. -/
def clientMachine : Machine ClientRun ClientOp where
  init := .init
  step := ClientRun.step

namespace ClientRun

/-- The stream without the responses that were returned. -/
def others (s : ClientRun) : List ServerMessage :=
  s.stream.filter fun m => s.returned.all fun r => !m.answers r.1

/-- The invariant of the connection. -/
structure Correlated (s : ClientRun) : Prop where
  own : ∀ r ∈ s.returned, r.2.answers r.1 = true ∧ r.2 ∈ s.stream
  once : ∀ id, s.stream.countP (·.answers id) ≤ 1
  asked : ∀ m ∈ s.stream, ∀ id, m.answers id = true → id ∈ s.sent
  rest : s.received ++ s.client.buffered ++ s.inbound = s.others
  /-- The response to a request sent once is not behind the reader. -/
  ahead : ∀ id, s.waiting = some id → s.sent.count id = 1 →
    (∀ m ∈ s.received ++ s.client.buffered, m.answers id = false) ∧ ∀ r ∈ s.returned, r.1 ≠ id

theorem owed_iff {s : ClientRun} {message : ServerMessage} :
    s.owed message = true ↔ ∀ id, message.answers id = true →
      id ∈ s.sent ∧ ∀ m ∈ s.stream, m.answers id = false := by
  simp only [owed, ServerMessage.answers_iff]
  cases message.reply with
  | none => simp
  | some id => simp

theorem filter_response {p q : ServerMessage → Bool} {stream pre post : List ServerMessage}
    (hsplit : pre ++ m :: post = stream.filter p) (hm : q m = true) (honce : stream.countP q ≤ 1) :
    pre ++ post = stream.filter fun m => p m && !q m := by
  have hcount : (pre ++ m :: post).countP q ≤ 1 := by
    rw [hsplit]
    exact Nat.le_trans List.filter_sublist.countP_le honce
  rw [List.countP_append, List.countP_cons_of_pos hm] at hcount
  have hpre : pre.filter (fun m => !q m) = pre := by
    refine List.filter_eq_self.mpr fun x hx => ?_
    have hzero : pre.countP q = 0 := by omega
    simpa using List.countP_eq_zero.mp hzero x hx
  have hpost : post.filter (fun m => !q m) = post := by
    refine List.filter_eq_self.mpr fun x hx => ?_
    have hzero : post.countP q = 0 := by omega
    simpa using List.countP_eq_zero.mp hzero x hx
  calc pre ++ post = (pre ++ m :: post).filter fun m => !q m := by
        rw [List.filter_append, List.filter_cons_of_neg (by simp [hm]), hpre, hpost]
    _ = stream.filter fun m => p m && !q m := by
        rw [hsplit, List.filter_filter]
        simp only [Bool.and_comm]

theorem correlated_init : Correlated init where
  own _ hr := by cases hr
  once _ := Nat.zero_le 1
  asked _ hm := by cases hm
  rest := rfl
  ahead _ hid := by cases hid

namespace Correlated

variable {s s' : ClientRun}

theorem send (hI : s.Correlated) (id : Nat) {waiting : Option Nat}
    (hwaiting : ∀ i, waiting = some i → i = id) :
    { s with sent := s.sent ++ [id], waiting }.Correlated where
  own := hI.own
  once := hI.once
  asked m hm i hi := List.mem_append_left _ (hI.asked m hm i hi)
  rest := hI.rest
  ahead i hi hcount := by
    obtain rfl := hwaiting i hi
    -- the id is new, so nothing in the stream answers it
    have hnew : i ∉ s.sent := by
      refine fun hmem => absurd hcount ?_
      simp only [List.count_append, List.count_singleton_self]
      have := List.count_pos_iff.mpr hmem
      omega
    have hnone : ∀ m ∈ s.stream, m.answers i = false :=
      fun m hm => Bool.eq_false_iff.mpr fun hans => hnew (hI.asked m hm i hans)
    refine ⟨fun m hm => ?_, fun r hr he => ?_⟩
    · have hin : m ∈ s.others := hI.rest ▸ List.mem_append_left _ hm
      exact hnone m (List.mem_of_mem_filter hin)
    · obtain ⟨hans, hstream⟩ := hI.own r hr
      rw [he, hnone r.2 hstream] at hans
      cases hans

theorem nextMessage (hI : s.Correlated) (hidle : s.waiting = none)
    (hs : s.nextMessage = some s') : s'.Correlated := by
  have hahead : ∀ id, s.waiting = some id → False :=
    fun id hid => absurd (hidle.symm.trans hid) (by simp)
  unfold ClientRun.nextMessage at hs
  split at hs
  · next message buffered hbuffered =>
    obtain rfl := Option.some.inj hs
    refine ⟨hI.own, hI.once, hI.asked, Eq.trans ?_ hI.rest, fun id hid => (hahead id hid).elim⟩
    simp [hbuffered]
  · next hbuffered =>
    split at hs
    · cases hs
    · next message inbound hinbound =>
      obtain rfl := Option.some.inj hs
      refine ⟨hI.own, hI.once, hI.asked, Eq.trans ?_ hI.rest, fun id hid => (hahead id hid).elim⟩
      simp [hbuffered, hinbound]

theorem read (hI : s.Correlated) {id : Nat} (hid : s.waiting = some id)
    (hs : s.read id = some s') : s'.Correlated := by
  unfold ClientRun.read at hs
  split at hs
  · cases hs
  · next message inbound hinbound =>
    have hrest := hI.rest
    rw [hinbound] at hrest
    have hstream : message ∈ s.stream := by
      refine List.mem_of_mem_filter (p := fun m => s.returned.all fun r => !m.answers r.1) ?_
      rw [show s.stream.filter _ = s.others from rfl, ← hrest]
      exact List.mem_append_right _ List.mem_cons_self
    unfold Client.turn at hs
    by_cases hans : message.answers id = true
    · rw [if_pos hans] at hs
      obtain rfl := Option.some.inj hs
      refine ⟨?_, hI.once, hI.asked, ?_, fun _ hi => by cases hi⟩
      · exact List.forall_mem_append.mpr
          ⟨hI.own, List.forall_mem_singleton.mpr ⟨hans, hstream⟩⟩
      · have htaken := filter_response hrest hans (hI.once id)
        simpa [others] using htaken
    · rw [if_neg hans] at hs
      obtain rfl := Option.some.inj hs
      refine ⟨hI.own, hI.once, hI.asked, Eq.trans ?_ hrest, fun i hi hcount => ?_⟩
      · simp
      · obtain rfl := Option.some.inj (hid.symm.trans hi)
        obtain ⟨hbehind, hreturned⟩ := hI.ahead id hid hcount
        refine ⟨fun m hm => ?_, hreturned⟩
        rw [← List.append_assoc] at hm
        rcases List.mem_append.mp hm with hm | hm
        · exact hbehind m hm
        · rw [List.mem_singleton.mp hm]
          exact Bool.eq_false_iff.mpr hans

theorem emit (hI : s.Correlated) {message : ServerMessage} (howed : s.owed message = true) :
    { s with inbound := s.inbound ++ [message], stream := s.stream ++ [message] }.Correlated := by
  rw [owed_iff] at howed
  refine ⟨fun r hr => ?_, fun id => ?_, ?_, ?_, hI.ahead⟩
  · exact ⟨(hI.own r hr).1, List.mem_append_left _ (hI.own r hr).2⟩
  · rw [List.countP_append, List.countP_singleton]
    split
    · next hans =>
      have hzero : s.stream.countP (·.answers id) = 0 :=
        List.countP_eq_zero.mpr fun m hm => Bool.eq_false_iff.mp ((howed id hans).2 m hm)
      omega
    · exact hI.once id
  · refine List.forall_mem_append.mpr ⟨hI.asked, List.forall_mem_singleton.mpr fun id hans => ?_⟩
    exact (howed id hans).1
  · -- it answers no request that returned, for that one had its answer
    have hkeep : (s.returned.all fun r => !message.answers r.1) = true := by
      refine List.all_eq_true.mpr fun r hr => ?_
      obtain ⟨hans, hstream⟩ := hI.own r hr
      rw [Bool.not_eq_eq_eq_not, Bool.not_true]
      refine Bool.eq_false_iff.mpr fun hyes => ?_
      rw [(howed r.1 hyes).2 r.2 hstream] at hans
      cases hans
    have htail : [message].filter (fun m => s.returned.all fun r => !m.answers r.1) = [message] :=
      List.filter_eq_self.mpr (List.forall_mem_singleton.mpr hkeep)
    have hsplit := hI.rest
    simp only [others] at hsplit ⊢
    rw [List.filter_append, ← hsplit, htail, List.append_assoc _ _ [message]]

/-- **Invariant preservation.** -/
theorem step (hI : s.Correlated) {op : ClientOp} (hs : s.step op = some s') : s'.Correlated := by
  cases op with
  | nextId =>
    obtain ⟨-, hs⟩ := Option.ite_none_right_eq_some.mp hs
    obtain rfl := Option.some.inj hs
    exact ⟨hI.own, hI.once, hI.asked, hI.rest, hI.ahead⟩
  | send request =>
    obtain ⟨hidle, hs⟩ := Option.ite_none_right_eq_some.mp hs
    obtain rfl := Option.some.inj hs
    exact hI.send request.id fun i hi => absurd (hidle.symm.trans hi) (by simp)
  | request request =>
    obtain ⟨hidle, hs⟩ := Option.ite_none_right_eq_some.mp hs
    obtain rfl := Option.some.inj hs
    exact hI.send request.id fun i hi => (Option.some.inj hi).symm
  | read =>
    obtain ⟨id, hid, hs⟩ := Option.bind_eq_some_iff.mp hs
    exact hI.read hid hs
  | readFailed =>
    obtain ⟨id, -, rfl⟩ := Option.map_eq_some_iff.mp hs
    exact ⟨hI.own, hI.once, hI.asked, hI.rest, fun _ hi => by cases hi⟩
  | nextMessage =>
    obtain ⟨hidle, hs⟩ := Option.ite_none_right_eq_some.mp hs
    exact hI.nextMessage hidle hs
  | emit message =>
    obtain ⟨howed, hs⟩ := Option.ite_none_right_eq_some.mp hs
    obtain rfl := Option.some.inj hs
    exact hI.emit howed

end Correlated

theorem exec_read {s : ClientRun} {id : Nat} {pre post : List ServerMessage}
    (hid : s.waiting = some id) (hinbound : s.inbound = pre ++ m :: post)
    (hpre : ∀ x ∈ pre, x.answers id = false) (hm : m.answers id = true) :
    clientMachine.exec s (List.replicate (pre.length + 1) .read) =
      some { s with
        client := { s.client with buffered := s.client.buffered ++ pre }, inbound := post,
        waiting := none, returned := s.returned ++ [(id, m)] } := by
  induction pre generalizing s with
  | nil =>
    have hstep : s.step .read = some { s with
        inbound := post, waiting := none, returned := s.returned ++ [(id, m)] } := by
      simp [ClientRun.step, hid, ClientRun.read, hinbound, Client.turn, hm]
    rw [List.length_nil, Nat.zero_add, List.replicate_one, Machine.exec_cons,
      show clientMachine.step s .read = _ from hstep]
    simp
  | cons x pre ih =>
    have hx : x.answers id = false := hpre x List.mem_cons_self
    have hstep : s.step .read = some { s with
        client := { s.client with buffered := s.client.buffered ++ [x] },
        inbound := pre ++ m :: post } := by
      simp [ClientRun.step, hid, ClientRun.read, hinbound, Client.turn, hx]
    rw [List.length_cons, List.replicate_succ, Machine.exec_cons,
      show clientMachine.step s .read = _ from hstep, Option.bind_some,
      ih (s := { s with
        client := { s.client with buffered := s.client.buffered ++ [x] },
        inbound := pre ++ m :: post }) hid rfl fun y hy => hpre y (List.mem_cons_of_mem _ hy)]
    simp

theorem step_nextMessage {s : ClientRun} {rest : List ServerMessage} (hidle : s.waiting = none)
    (hnext : s.client.buffered ++ s.inbound = m :: rest) :
    ∃ s', s.step .nextMessage = some s' ∧ s'.waiting = none ∧
      s'.received = s.received ++ [m] ∧ s'.client.buffered ++ s'.inbound = rest ∧
      s'.others = s.others := by
  simp only [step, if_pos hidle, nextMessage]
  split
  · next message buffered hbuffered =>
    rw [hbuffered, List.cons_append, List.cons.injEq] at hnext
    obtain ⟨rfl, hrest⟩ := hnext
    exact ⟨_, rfl, hidle, rfl, hrest, rfl⟩
  · next hbuffered =>
    rw [hbuffered, List.nil_append] at hnext
    rw [hnext]
    refine ⟨_, rfl, hidle, rfl, ?_, rfl⟩
    rw [hbuffered, List.nil_append]

/-- `next_message`, called often enough, returns all that is buffered or unread. -/
theorem exec_nextMessage {s : ClientRun} (hidle : s.waiting = none) {rest : List ServerMessage}
    (hrest : s.client.buffered ++ s.inbound = rest) :
    ∃ s', clientMachine.exec s (List.replicate rest.length .nextMessage) = some s' ∧
      s'.received = s.received ++ rest ∧ s'.others = s.others := by
  induction rest generalizing s with
  | nil => exact ⟨s, rfl, (List.append_nil _).symm, rfl⟩
  | cons m rest ih =>
    obtain ⟨t, hstep, hidle', hreceived, hrest', hothers⟩ := step_nextMessage hidle hrest
    obtain ⟨s', hrun, hall, hsame⟩ := ih hidle' hrest'
    refine ⟨s', Machine.exec_cons_eq_some.mpr ⟨t, hstep, hrun⟩, ?_, hsame.trans hothers⟩
    rw [hall, hreceived, List.append_assoc]
    rfl

end ClientRun

theorem correlated_of_run {ops : List ClientOp} {s : ClientRun}
    (hrun : clientMachine.exec clientMachine.init ops = some s) : s.Correlated :=
  Machine.invariant_of_step (M := clientMachine) (I := ClientRun.Correlated)
    ClientRun.correlated_init (fun _ _ _ hI hs => hI.step hs) hrun

/-- **Requests and responses correlate.** Whatever the calls and however the daemon's messages
come between them, as long as it answers each id once:

* a response `request` returned answers that request;
* what `next_message` returned, what is buffered and what is unread are together the stream
  without those responses, in order, and further calls return all of it;
* a request whose id was used once returns its response as soon as the daemon has sent it. -/
theorem request_correlation (ops : List ClientOp) {s : ClientRun}
    (hrun : clientMachine.exec clientMachine.init ops = some s) :
    (∀ r ∈ s.returned, r.2.answers r.1 = true) ∧
      s.received ++ s.client.buffered ++ s.inbound =
        s.stream.filter (fun m => s.returned.all fun r => !m.answers r.1) ∧
      (s.waiting = none → ∃ n s', clientMachine.exec s (List.replicate n .nextMessage) = some s' ∧
        s'.received = s.stream.filter fun m => s.returned.all fun r => !m.answers r.1) ∧
      ∀ id, s.waiting = some id → s.sent.count id = 1 → ∀ m ∈ s.stream, m.answers id = true →
        ∃ n s', clientMachine.exec s (List.replicate n .read) = some s' ∧ s'.waiting = none ∧
          s'.returned = s.returned ++ [(id, m)] := by
  have hI := correlated_of_run hrun
  refine ⟨fun r hr => (hI.own r hr).1, hI.rest, fun hidle => ?_, fun id hid hcount m hm hans => ?_⟩
  · obtain ⟨s', hnext, hreceived, -⟩ := ClientRun.exec_nextMessage hidle rfl
    refine ⟨_, s', hnext, ?_⟩
    rw [hreceived, ← List.append_assoc]
    exact hI.rest
  · obtain ⟨hbehind, hreturned⟩ := hI.ahead id hid hcount
    have hkept : m ∈ s.others := by
      refine List.mem_filter.mpr ⟨hm, List.all_eq_true.mpr fun r hr => ?_⟩
      rw [Bool.not_eq_eq_eq_not, Bool.not_true]
      refine Bool.eq_false_iff.mpr fun hyes => hreturned r hr ?_
      exact ServerMessage.answers_unique hyes hans
    rw [← hI.rest] at hkept
    have hinbound : m ∈ s.inbound := by
      refine (List.mem_append.mp hkept).resolve_left fun hin => ?_
      rw [hbehind m hin] at hans
      cases hans
    -- nothing else answers it, so the loop reads up to it
    obtain ⟨pre, post, hsplit⟩ := List.append_of_mem hinbound
    have hcount : (pre ++ m :: post).countP (ServerMessage.answers id) ≤ 1 := by
      calc (pre ++ m :: post).countP (ServerMessage.answers id)
          ≤ s.others.countP (ServerMessage.answers id) := by
            rw [← hI.rest, hsplit]
            exact (List.sublist_append_right _ _).countP_le
        _ ≤ s.stream.countP (ServerMessage.answers id) := List.filter_sublist.countP_le
        _ ≤ 1 := hI.once id
    have hpre : ∀ x ∈ pre, x.answers id = false := by
      intro x hx
      rw [List.countP_append, List.countP_cons_of_pos hans] at hcount
      have hzero : pre.countP (ServerMessage.answers id) = 0 := by omega
      exact Bool.eq_false_iff.mpr (List.countP_eq_zero.mp hzero x hx)
    exact ⟨_, _, ClientRun.exec_read hid hsplit hpre hans, rfl, rfl⟩

/-- An event comes before the response, and a request's response after it is read past. -/
theorem request_correlation_buffered :
    ∃ s, clientMachine.exec clientMachine.init
        [.nextId, .request (.list 1), .emit (.exit "s" 0), .read, .emit (.sessions 1 []), .read,
          .nextId, .request (.kill 2 "s"), .emit (.output "t" 0 ""), .emit (.ok 2 none), .read] =
        some s ∧
      s.returned = [(1, .sessions 1 [])] ∧ s.waiting = some 2 ∧
      s.client.buffered = [.exit "s" 0, .output "t" 0 ""] ∧
      ∃ n s', clientMachine.exec s (List.replicate n .read) = some s' ∧ s'.waiting = none ∧
        s'.returned = s.returned ++ [(2, .ok 2 none)] := by
  refine ⟨_, rfl, rfl, rfl, rfl, ?_⟩
  refine (request_correlation [.nextId, .request (.list 1), .emit (.exit "s" 0), .read,
    .emit (.sessions 1 []), .read, .nextId, .request (.kill 2 "s"), .emit (.output "t" 0 ""),
    .emit (.ok 2 none), .read] rfl).2.2.2 2 rfl rfl (.ok 2 none) ?_ rfl
  decide +kernel

end Goble.Pty
