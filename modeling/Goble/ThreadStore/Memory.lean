import Goble.Lib.Checks
import Goble.Lib.Table
import Goble.Lib.Text

/-!
# The thread store in memory

Threads, messages and read receipts, and what each operation of the store does to them before it
is saved. Ids and times are drawn by the operations; here they are arguments. The Unicode test of
`char::is_alphanumeric` is a parameter of the mentions of a message.
-/

namespace Goble.ThreadStore

inductive Participant where
  | user (id : String)
  | agent (id : String)
deriving DecidableEq, Repr

def Participant.participantId : Participant → String
  | .user id => "user:" ++ id
  | .agent id => "agent:" ++ id

inductive ThreadKind where
  | chat
  | channel
  | direct
deriving DecidableEq, Repr

inductive ThreadError where
  | threadNotFound (id : String)
  | messageNotFound (id : String)
  | participantNotFound (id : String)
  | duplicateParticipant (id : String)
  | unauthorized
  | invalidDirectThreadParticipantCount (n : Nat)
  | replyToDifferentThread
  | replyToNotFound (id : String)
deriving DecidableEq, Repr

structure Thread where
  id : String
  kind : ThreadKind
  title : String
  ownerId : String
  isPrivate : Bool
  participants : List Participant
  tags : List String
  createdAt : Int
  updatedAt : Int
deriving DecidableEq, Repr

namespace Thread

def hasParticipant (thread : Thread) (participantId : String) : Bool :=
  thread.participants.any fun p => p.participantId == participantId

def addParticipant (thread : Thread) (now : Int) (participant : Participant) :
    Except ThreadError Thread :=
  if thread.hasParticipant participant.participantId then
    .error (.duplicateParticipant participant.participantId)
  else
    .ok { thread with participants := thread.participants ++ [participant], updatedAt := now }

def removeParticipant (thread : Thread) (now : Int) (participantId : String) :
    Except ThreadError Thread :=
  let participants := thread.participants.filter fun p => p.participantId != participantId
  if participants.length = thread.participants.length then
    .error (.participantNotFound participantId)
  else .ok { thread with participants, updatedAt := now }

end Thread

structure Reaction where
  emoji : String
  participantId : String
deriving DecidableEq, Repr

structure Attachment where
  id : String
  name : String
  mimeType : String
  blobRef : String
deriving DecidableEq, Repr

structure ThreadMessage where
  id : String
  threadId : String
  author : Participant
  content : String
  replyTo : Option String
  tags : List String
  participantMentions : List String
  reactions : List Reaction
  attachments : List Attachment
  traceId : Option String
  createdAt : Int
  updatedAt : Int
deriving DecidableEq, Repr

def ThreadMessage.hasReactionFrom (message : ThreadMessage) (emoji participantId : String) : Bool :=
  message.reactions.any fun r => r.emoji == emoji && r.participantId == participantId

structure UserProfile where
  id : String
  name : String
  email : String
  avatarUrl : Option String
  publicKeyPem : Option String
deriving DecidableEq, Repr

structure AuthorizedKey where
  id : String
  name : String
  publicKeyPem : String
  fingerprint : String
  threadIds : List String
  createdAt : Int
deriving DecidableEq, Repr

structure Memory where
  threads : List Thread
  messages : Table String (List ThreadMessage)
  lastReadAt : Table String Int
  profile : Option UserProfile
  keys : List AuthorizedKey

def Memory.empty : Memory := ⟨[], ∅, ∅, none, []⟩

inductive Reply where
  | thread (thread : Thread)
  | message (message : ThreadMessage)
  | removed (removed : Bool)
  | done
deriving DecidableEq, Repr

/-- What an operation does before it saves: an error and nothing else, an answer with nothing to
save, or an answer and the memory to be saved. -/
abbrev Effect := Except ThreadError (Reply × Option Memory)

/-- `iter_mut().find(p)`, and what is done to the first one found. -/
def modifyFirst {α ε : Type} (p : α → Bool) (f : α → Except ε α) (notFound : ε) :
    List α → Except ε (List α)
  | [] => .error notFound
  | a :: as =>
    if p a then (f a).map (· :: as) else (modifyFirst p f notFound as).map (a :: ·)

def extractMentions (isAlphanumeric : Char → Bool) (content : String) : List String :=
  (Text.splitWhitespace content.toList).filterMap fun word =>
    let trimEnd (name : List Char) : List Char :=
      (name.reverse.dropWhile fun c => !isAlphanumeric c && c != '-' && c != '_').reverse
    match word.dropPrefix? "@user:".toList with
    | some name => some ("user:" ++ String.ofList (trimEnd name))
    | none =>
      match word.dropPrefix? "@agent:".toList with
      | some name => some ("agent:" ++ String.ofList (trimEnd name))
      | none =>
        match word.dropPrefix? ['@'] with
        | some name =>
          let raw := trimEnd name
          if !raw.isEmpty && !raw.contains ':' then some ("agent:" ++ String.ofList raw) else none
        | none => none

namespace Memory

variable (memory : Memory)

def getThread (id : String) : Except ThreadError Thread :=
  match memory.threads.find? fun t => t.id == id with
  | some thread => .ok thread
  | none => .error (.threadNotFound id)

def createThread (id : String) (now : Int) (kind : ThreadKind) (title ownerId : String)
    (isPrivate : Bool) (participants : List Participant) (tags : List String) : Effect :=
  let participants :=
    if kind = .chat ∧ participants.length ≠ 1 then [.user ownerId] else participants
  let ids := participants.map Participant.participantId
  if kind = .direct ∧ participants.length ≠ 2 then
    .error (.invalidDirectThreadParticipantCount participants.length)
  else if ¬ ids.Nodup then .error (.duplicateParticipant (ids.getLastD ""))
  else
    let thread : Thread :=
      ⟨id, kind, title, ownerId, isPrivate, participants, tags, now, now⟩
    .ok (.thread thread, some { memory with threads := memory.threads ++ [thread] })

def deleteThread (id : String) : Effect :=
  let threads := memory.threads.filter fun t => t.id != id
  if threads.length < memory.threads.length then
    .ok (.removed true, some { memory with threads, messages := memory.messages.erase id })
  else .ok (.removed false, none)

def editThread (threadId : String) (f : Thread → Except ThreadError Thread) : Effect := do
  let threads ← modifyFirst (fun t => t.id == threadId)
    (fun t => if t.kind = .direct then .error .unauthorized else f t)
    (.threadNotFound threadId) memory.threads
  return (.done, some { memory with threads })

def addParticipant (now : Int) (threadId : String) (participant : Participant) : Effect :=
  memory.editThread threadId fun t => t.addParticipant now participant

def removeParticipant (now : Int) (threadId participantId : String) : Effect :=
  memory.editThread threadId fun t => t.removeParticipant now participantId

def markThreadRead (now : Int) (threadId : String) : Effect := do
  let _ ← memory.getThread threadId
  return (.done, some { memory with lastReadAt := memory.lastReadAt.insert threadId now })

def messagesMut (threadId : String) : Except ThreadError (List ThreadMessage) := do
  let _ ← memory.getThread threadId
  match memory.messages.lookup threadId with
  | some list => .ok list
  | none => .error (.threadNotFound threadId)

def setMessages (threadId : String) (list : List ThreadMessage) : Memory :=
  { memory with messages := memory.messages.insert threadId list }

def updateMessage (isAlphanumeric : Char → Bool) (now : Int)
    (threadId messageId participantId content : String) : Effect := do
  let list ← memory.messagesMut threadId
  let list ← modifyFirst (fun m => m.id == messageId)
    (fun m =>
      if m.author.participantId ≠ participantId then .error .unauthorized
      else .ok { m with
        content, participantMentions := extractMentions isAlphanumeric content, updatedAt := now })
    (.messageNotFound messageId) list
  match list.find? fun m => m.id == messageId with
  | some updated => .ok (.message updated, some (memory.setMessages threadId list))
  | none => .error (.messageNotFound messageId)

def deleteMessage (threadId messageId participantId : String) : Effect := do
  let list ← memory.messagesMut threadId
  match list.find? fun m => m.id == messageId with
  | none => .error (.messageNotFound messageId)
  | some message =>
    if message.author.participantId ≠ participantId then .error .unauthorized
    else
      .ok (.done, some (memory.setMessages threadId (list.eraseP fun m => m.id == messageId)))

/-- The check of the message that is replied to. -/
def replyTarget (list : List ThreadMessage) (threadId : String) :
    Option String → Except ThreadError (Option String)
  | none => .ok none
  | some parentId =>
    match list.find? fun m => m.id == parentId with
    | none => .error (.replyToNotFound parentId)
    | some parent =>
      if parent.threadId ≠ threadId then .error .replyToDifferentThread else .ok (some parentId)

def postMessage (id : String) (now : Int) (threadId : String) (author : Participant)
    (content : String) (replyTo : Option String) (tags mentions : List String)
    (traceId : Option String) : Effect := do
  let thread ← memory.getThread threadId
  if ¬ thread.hasParticipant author.participantId = true then .error .unauthorized
  else
    let list := (memory.messages.lookup threadId).getD []
    let replyTo ← replyTarget list threadId replyTo
    let message : ThreadMessage :=
      ⟨id, threadId, author, content, replyTo, tags, mentions, [], [], some (traceId.getD ""), now,
        now⟩
    return (.message message, some (memory.setMessages threadId (list ++ [message])))

def addReaction (now : Int) (threadId messageId participantId emoji : String) : Effect := do
  let list ← memory.messagesMut threadId
  match list.find? fun m => m.id == messageId with
  | none => .error (.messageNotFound messageId)
  | some message =>
    if message.hasReactionFrom emoji participantId then .ok (.done, none)
    else do
      let list ← modifyFirst (fun m => m.id == messageId)
        (fun m => .ok { m with
          reactions := m.reactions ++ [⟨emoji, participantId⟩], updatedAt := now })
        (.messageNotFound messageId) list
      return (.done, some (memory.setMessages threadId list))

def removeReaction (now : Int) (threadId messageId participantId emoji : String) : Effect := do
  let list ← memory.messagesMut threadId
  let list ← modifyFirst (fun m => m.id == messageId)
    (fun m => .ok { m with
      reactions := m.reactions.filter fun r =>
        !(r.emoji == emoji && r.participantId == participantId)
      updatedAt := now })
    (.messageNotFound messageId) list
  return (.done, some (memory.setMessages threadId list))

end Memory

/-- The operations of the store, with the ids and times they draw. -/
inductive ThreadOp where
  | createThread (id : String) (now : Int) (kind : ThreadKind) (title ownerId : String)
    (isPrivate : Bool) (participants : List Participant) (tags : List String)
  | deleteThread (id : String)
  | addParticipant (now : Int) (threadId : String) (participant : Participant)
  | removeParticipant (now : Int) (threadId participantId : String)
  | markThreadRead (now : Int) (threadId : String)
  | postMessage (id : String) (now : Int) (threadId : String) (author : Participant)
    (content : String) (replyTo : Option String) (tags mentions : List String)
    (traceId : Option String)
  | updateMessage (now : Int) (threadId messageId participantId content : String)
  | deleteMessage (threadId messageId participantId : String)
  | addReaction (now : Int) (threadId messageId participantId emoji : String)
  | removeReaction (now : Int) (threadId messageId participantId emoji : String)
deriving DecidableEq, Repr

/-- What an operation does before it saves. -/
def ThreadOp.effect (isAlphanumeric : Char → Bool) (memory : Memory) : ThreadOp → Effect
  | .createThread id now kind title ownerId isPrivate participants tags =>
    memory.createThread id now kind title ownerId isPrivate participants tags
  | .deleteThread id => memory.deleteThread id
  | .addParticipant now threadId participant => memory.addParticipant now threadId participant
  | .removeParticipant now threadId participantId =>
    memory.removeParticipant now threadId participantId
  | .markThreadRead now threadId => memory.markThreadRead now threadId
  | .postMessage id now threadId author content replyTo tags mentions traceId =>
    memory.postMessage id now threadId author content replyTo tags mentions traceId
  | .updateMessage now threadId messageId participantId content =>
    memory.updateMessage isAlphanumeric now threadId messageId participantId content
  | .deleteMessage threadId messageId participantId =>
    memory.deleteMessage threadId messageId participantId
  | .addReaction now threadId messageId participantId emoji =>
    memory.addReaction now threadId messageId participantId emoji
  | .removeReaction now threadId messageId participantId emoji =>
    memory.removeReaction now threadId messageId participantId emoji

/-! ### What an operation can do -/

variable {id : String}

namespace Memory

def Has (memory : Memory) (id : String) : Prop := ∃ thread ∈ memory.threads, thread.id = id

/-- Messages and read receipts are those of threads there are. -/
structure Owned (memory : Memory) : Prop where
  messages : ∀ id, memory.messages.lookup id ≠ none → memory.Has id
  lastReadAt : ∀ id, memory.lastReadAt.lookup id ≠ none → memory.Has id

/-- What an operation that deletes no thread leaves to be saved. -/
inductive Change (memory : Memory) : Memory → Prop where
  /-- Threads are added or edited. -/
  | threads (threads : List Thread)
    (hkept : ∀ thread ∈ memory.threads, ∃ thread' ∈ threads, thread'.id = thread.id) :
    Change memory { memory with threads }
  /-- The messages of a thread are written. -/
  | messages (id : String) (list : List ThreadMessage) (hthread : memory.Has id) :
    Change memory (memory.setMessages id list)
  /-- A thread is read. -/
  | lastReadAt (id : String) (now : Int) (hthread : memory.Has id) :
    Change memory { memory with lastReadAt := memory.lastReadAt.insert id now }

theorem has_of_getThread {memory : Memory} {thread : Thread}
    (h : memory.getThread id = .ok thread) : memory.Has id := by
  unfold getThread at h
  split at h
  · next t hfind => exact ⟨t, List.mem_of_find?_eq_some hfind, by simpa using List.find?_some hfind⟩
  · cases h

end Memory

/-- Changing the first element found keeps what the change keeps of each. -/
theorem map_modifyFirst {α β ε : Type} {p : α → Bool} {f : α → Except ε α} {notFound : ε}
    {g : α → β} (hf : ∀ a b, f a = .ok b → g b = g a) {as bs : List α}
    (h : modifyFirst p f notFound as = .ok bs) : bs.map g = as.map g := by
  induction as generalizing bs with
  | nil => cases h
  | cons a as ih =>
    unfold modifyFirst at h
    split at h
    · cases hb : f a with
      | error e => rw [hb] at h; cases h
      | ok b =>
        rw [hb] at h
        obtain rfl := Except.ok.inj h
        rw [List.map_cons, List.map_cons, hf a b hb]
    · cases hbs : modifyFirst p f notFound as with
      | error e => rw [hbs] at h; cases h
      | ok bs' =>
        rw [hbs] at h
        obtain rfl := Except.ok.inj h
        rw [List.map_cons, List.map_cons, ih hbs]

variable {participantId : String} {now : Int}

namespace Memory

variable {memory memory' : Memory} {reply : Reply}

variable {threadId : String}

theorem has_of_messagesMut {list : List ThreadMessage}
    (h : memory.messagesMut threadId = .ok list) : memory.Has threadId := by
  obtain ⟨thread, hthread, -⟩ := exists_of_bind_eq_ok h
  exact has_of_getThread hthread

theorem Change.editThread {f : Thread → Except ThreadError Thread}
    (hf : ∀ t t', f t = .ok t' → t'.id = t.id)
    (h : memory.editThread threadId f = .ok (reply, some memory')) : Change memory memory' := by
  obtain ⟨threads, hthreads, hdone⟩ := exists_of_bind_eq_ok h
  obtain ⟨-, hmemory⟩ := Prod.mk.inj (Except.ok.inj hdone)
  obtain rfl := Option.some.inj hmemory
  refine .threads threads fun thread hthread => ?_
  have hids : threads.map Thread.id = memory.threads.map Thread.id := by
    refine map_modifyFirst (fun t t' ht => ?_) hthreads
    split at ht
    · cases ht
    · exact hf t t' ht
  have hmem : thread.id ∈ threads.map Thread.id := hids ▸ List.mem_map_of_mem hthread
  exact List.mem_map.mp hmem

theorem Change.createThread {kind : ThreadKind} {title ownerId : String} {isPrivate : Bool}
    {participants : List Participant} {tags : List String}
    (h : memory.createThread id now kind title ownerId isPrivate participants tags =
      .ok (reply, some memory')) : Change memory memory' := by
  unfold Memory.createThread at h
  simp only at h
  generalize (if kind = ThreadKind.chat ∧ participants.length ≠ 1 then [.user ownerId]
    else participants) = participants at h
  split at h
  · cases h
  · split at h
    · cases h
    · obtain ⟨-, hmemory⟩ := Prod.mk.inj (Except.ok.inj h)
      obtain rfl := Option.some.inj hmemory
      exact .threads _ fun thread hthread => ⟨thread, List.mem_append_left _ hthread, rfl⟩

theorem eq_of_deleteThread (h : memory.deleteThread id = .ok (reply, some memory')) :
    memory' = { memory with
      threads := memory.threads.filter fun t => t.id != id
      messages := memory.messages.erase id } := by
  unfold Memory.deleteThread at h
  simp only at h
  split at h
  · obtain ⟨-, hmemory⟩ := Prod.mk.inj (Except.ok.inj h)
    exact (Option.some.inj hmemory).symm
  · cases (Prod.mk.inj (Except.ok.inj h)).2

theorem Change.markThreadRead (h : memory.markThreadRead now threadId = .ok (reply, some memory')) :
    Change memory memory' := by
  obtain ⟨thread, hthread, hdone⟩ := exists_of_bind_eq_ok h
  obtain ⟨-, hmemory⟩ := Prod.mk.inj (Except.ok.inj hdone)
  obtain rfl := Option.some.inj hmemory
  exact .lastReadAt threadId now (has_of_getThread hthread)

variable {messageId : String}

theorem Change.updateMessage {isAlphanumeric : Char → Bool} {content : String}
    (h : memory.updateMessage isAlphanumeric now threadId messageId participantId content =
      .ok (reply, some memory')) : Change memory memory' := by
  obtain ⟨list, hlist, h⟩ := exists_of_bind_eq_ok h
  obtain ⟨list', -, h⟩ := exists_of_bind_eq_ok h
  split at h
  · obtain ⟨-, hmemory⟩ := Prod.mk.inj (Except.ok.inj h)
    obtain rfl := Option.some.inj hmemory
    exact .messages threadId list' (has_of_messagesMut hlist)
  · cases h

theorem Change.deleteMessage
    (h : memory.deleteMessage threadId messageId participantId = .ok (reply, some memory')) :
    Change memory memory' := by
  obtain ⟨list, hlist, h⟩ := exists_of_bind_eq_ok h
  split at h
  · cases h
  · split at h
    · cases h
    · obtain ⟨-, hmemory⟩ := Prod.mk.inj (Except.ok.inj h)
      obtain rfl := Option.some.inj hmemory
      exact .messages threadId _ (has_of_messagesMut hlist)

theorem Change.postMessage {author : Participant} {content : String} {replyTo : Option String}
    {tags mentions : List String} {traceId : Option String}
    (h : memory.postMessage id now threadId author content replyTo tags mentions traceId =
      .ok (reply, some memory')) : Change memory memory' := by
  obtain ⟨thread, hthread, h⟩ := exists_of_bind_eq_ok h
  split at h
  · cases h
  · obtain ⟨message, -, h⟩ := exists_of_bind_eq_ok h
    obtain ⟨-, hmemory⟩ := Prod.mk.inj (Except.ok.inj h)
    obtain rfl := Option.some.inj hmemory
    exact .messages threadId _ (has_of_getThread hthread)

theorem Change.addReaction {emoji : String}
    (h : memory.addReaction now threadId messageId participantId emoji =
      .ok (reply, some memory')) : Change memory memory' := by
  obtain ⟨list, hlist, h⟩ := exists_of_bind_eq_ok h
  split at h
  · cases h
  · split at h
    · cases (Prod.mk.inj (Except.ok.inj h)).2
    · obtain ⟨list', -, h⟩ := exists_of_bind_eq_ok h
      obtain ⟨-, hmemory⟩ := Prod.mk.inj (Except.ok.inj h)
      obtain rfl := Option.some.inj hmemory
      exact .messages threadId _ (has_of_messagesMut hlist)

theorem Change.removeReaction {emoji : String}
    (h : memory.removeReaction now threadId messageId participantId emoji =
      .ok (reply, some memory')) : Change memory memory' := by
  obtain ⟨list, hlist, h⟩ := exists_of_bind_eq_ok h
  obtain ⟨list', -, h⟩ := exists_of_bind_eq_ok h
  obtain ⟨-, hmemory⟩ := Prod.mk.inj (Except.ok.inj h)
  obtain rfl := Option.some.inj hmemory
  exact .messages threadId _ (has_of_messagesMut hlist)

end Memory

theorem Thread.addParticipant_id {thread thread' : Thread} {participant : Participant}
    (h : thread.addParticipant now participant = .ok thread') : thread'.id = thread.id := by
  unfold Thread.addParticipant at h
  split at h
  · cases h
  · obtain rfl := Except.ok.inj h
    rfl

theorem Thread.removeParticipant_id {thread thread' : Thread}
    (h : thread.removeParticipant now participantId = .ok thread') : thread'.id = thread.id := by
  unfold Thread.removeParticipant at h
  simp only at h
  split at h
  · cases h
  · obtain rfl := Except.ok.inj h
    rfl

theorem ThreadOp.change_of_effect {isAlphanumeric : Char → Bool} {memory memory' : Memory}
    {op : ThreadOp} {reply : Reply}
    (h : op.effect isAlphanumeric memory = .ok (reply, some memory')) :
    memory.Change memory' ∨ ∃ id, op = .deleteThread id ∧
      memory' = { memory with
        threads := memory.threads.filter fun t => t.id != id
        messages := memory.messages.erase id } := by
  cases op with
  | createThread => exact .inl (.createThread h)
  | deleteThread id => exact .inr ⟨id, rfl, Memory.eq_of_deleteThread h⟩
  | addParticipant => exact .inl (.editThread (fun _ _ => Thread.addParticipant_id) h)
  | removeParticipant => exact .inl (.editThread (fun _ _ => Thread.removeParticipant_id) h)
  | markThreadRead => exact .inl (.markThreadRead h)
  | postMessage => exact .inl (.postMessage h)
  | updateMessage => exact .inl (.updateMessage h)
  | deleteMessage => exact .inl (.deleteMessage h)
  | addReaction => exact .inl (.addReaction h)
  | removeReaction => exact .inl (.removeReaction h)

namespace Memory

variable {memory memory' : Memory}

theorem Change.has (h : memory.Change memory') (hid : memory.Has id) :
    memory'.Has id := by
  cases h with
  | threads threads hkept =>
    obtain ⟨thread, hthread, rfl⟩ := hid
    exact hkept thread hthread
  | messages | lastReadAt => exact hid

theorem Change.messages_ne_none (h : memory.Change memory')
    (hid : memory.messages.lookup id ≠ none) : memory'.messages.lookup id ≠ none := by
  cases h with
  | messages id' list =>
    rw [setMessages, Table.lookup_insert_eq]
    split
    · exact Option.some_ne_none _
    · exact hid
  | threads | lastReadAt => exact hid

/-- A change leaves no messages or receipts without a thread. -/
theorem Change.owned (h : memory.Change memory') (howned : memory.Owned) : memory'.Owned := by
  refine ⟨fun id hid => ?_, fun id hid => ?_⟩
  · cases h with
    | messages id' list hthread =>
      rw [setMessages, Table.lookup_insert_eq] at hid
      split at hid
      · next he => exact he ▸ hthread
      · exact howned.messages id hid
    | threads threads hkept =>
      exact (Change.threads threads hkept).has (howned.messages id hid)
    | lastReadAt => exact howned.messages id hid
  · cases h with
    | lastReadAt id' now hthread =>
      simp only [Table.lookup_insert_eq] at hid
      split at hid
      · next he => exact he ▸ hthread
      · exact howned.lastReadAt id hid
    | threads threads hkept =>
      exact (Change.threads threads hkept).has (howned.lastReadAt id hid)
    | messages => exact howned.lastReadAt id hid

end Memory

end Goble.ThreadStore
