/-
Shutdown requests of an svmgr that exits.

# Sessions

A `Session` is the event loop together with what svmgr wrote to its
socket and init has not read. A `Ready` event is turned into an event of
the loop by what the socket holds; `serve` handles batches of them until
a shutdown is executed, as `run` does (`serve_run`).

# The request

`request_kept`: as long as no exit is handled up to the batch that reads
the last byte of the request, it is the shutdown that is executed. The
exit handler closes the socket with whatever is unread in it:
`request_lost` has the runs in which it comes too early.
-/
import Dynamod.Init.Proofs.Channel
import Dynamod.Init.Proofs.Supervision

namespace Dynamod.Init

open Lib MessagePack

-- ==== sessions

/-- The loop and the socket of svmgr: what is unread in it, or `none`
once init has closed it. -/
structure Session where
  loop : EventLoop
  unread : Option (List UInt8)

/-- The events at the exit of svmgr. A read hands over up to `n + 1`
bytes. -/
inductive Ready
  | initSock (n : Nat)
  | svmgrPidfd (a : ExitAnswers)
  | sigchld (gone : Bool) (a : ExitAnswers)

/-- The event handles the exit of svmgr. -/
def Ready.exits (c : Child) : Ready → Bool
  | .initSock _ => false
  | .svmgrPidfd _ => true
  | .sigchld gone _ => c.pidfd.isNone && c.pid.isSome && gone

/-- The event makes a read. -/
def Ready.reads : Ready → Bool
  | .initSock _ => true
  | _ => false

/-- The shutdown that a payload asks for. -/
def Payload.request (p : Payload) : Option ShutdownKind :=
  match p.parse with
  | .ok (.requestShutdown kind) => some kind
  | _ => none

namespace Session

variable {s s' : Session}

/-- How many bytes a read takes: no more than there is room for. -/
def amount (s : Session) (n : Nat) : Nat := min (n + 1) (capacity - s.loop.ipcBuf.len)

/-- The event as the loop sees it. Behind the last byte of an exited
svmgr is the end of the stream; the socket of the next instance is
empty. -/
def event (s : Session) : Ready → Event
  | .initSock n =>
    .initSock (match s.unread with
      | some bs => .data (bs.take (s.amount n))
      | none => .wouldBlock)
  | .svmgrPidfd a => .svmgrPidfd a
  | .sigchld gone a => .signalFd [.childExited gone a]

/-- What is left in the socket. -/
def left (s : Session) (r : Ready) : Option (List UInt8) :=
  if r.exits s.loop.svmgr then none
  else match r with
    | .initSock n => s.unread.map (·.drop (s.amount n))
    | _ => s.unread

def deliver (s : Session) (r : Ready) : Checked Session := do
  let l ← s.loop.handle (s.event r)
  return ⟨l, s.left r⟩

/-- Batches of events, up to the shutdown. -/
def serve : Session → List (List Ready) → Checked (Session × Option ShutdownKind)
  | s, [] => .ok (s, none)
  | s, batch :: batches => do
      let s ← batch.foldlM deliver s
      match s.loop.shutdownRequested with
      | some kind => return (s, some kind)
      | none => s.serve batches

/-- The events of a batch as the loop sees them, each in the session it finds. -/
def events : Session → List Ready → List Event
  | _, [] => []
  | s, r :: batch =>
    s.event r :: match s.deliver r with
      | .ok s => s.events batch
      | .error _ => []

/-- What `epoll_pwait` answers for the batches. -/
def answers : Session → List (List Ready) → List WaitAnswer
  | _, [] => []
  | s, batch :: batches =>
    .ready (s.events batch) :: match batch.foldlM deliver s with
      | .ok s => s.answers batches
      | .error _ => []

theorem deliver_all (batch : List Ready) :
    ∀ {s s' : Session}, batch.foldlM deliver s = .ok s' →
      (s.events batch).foldlM EventLoop.handle s.loop = .ok s'.loop := by
  induction batch with
  | nil =>
    intro s s' h
    cases h
    rfl
  | cons r batch ih =>
    intro s s' h
    obtain ⟨s₁, hdeliver, hrest⟩ := Checked.bind_ok h
    rw [events, hdeliver, List.foldlM_cons]
    obtain ⟨l, hl, hs₁⟩ := Checked.bind_ok hdeliver
    cases hs₁
    rw [hl]
    exact ih hrest

theorem serve_cons {batch : List Ready} {batches : List (List Ready)}
    (h : batch.foldlM deliver s = .ok s') :
    s.serve (batch :: batches) = match s'.loop.shutdownRequested with
      | some kind => .ok (s', some kind)
      | none => s'.serve batches := by
  rw [serve, h]
  rfl

/-- Handling batches is what `run` does for the answers that hold them. -/
theorem serve_run (batches : List (List Ready)) :
    ∀ {s s' : Session} {out : Option ShutdownKind} (n : Nat), s.serve batches = .ok (s', out) →
      ∃ m, Machine.run ⟨s.loop, n, none⟩ (s.answers batches) = .ok m
        ∧ m.loop = s'.loop ∧ m.executed = out := by
  induction batches with
  | nil =>
    intro s s' out n h
    cases h
    exact ⟨_, rfl, rfl, rfl⟩
  | cons batch batches ih =>
    intro s s' out n h
    obtain ⟨s₁, hbatch, hrest⟩ := Checked.bind_ok h
    have hround : Machine.run ⟨s.loop, n, none⟩ (s.answers (batch :: batches))
        = Machine.run ⟨s₁.loop, 0, s₁.loop.shutdownRequested⟩ (s₁.answers batches) := by
      rw [answers, hbatch]
      show (((s.events batch).foldlM EventLoop.handle s.loop >>= _) >>= _) = _
      rw [deliver_all batch hbatch]
      rfl
    rw [hround]
    cases hrequest : s₁.loop.shutdownRequested with
    | some kind =>
      rw [hrequest] at hrest
      cases hrest
      refine ⟨⟨s'.loop, 0, some kind⟩, ?_, rfl, rfl⟩
      cases s'.answers batches <;> rfl
    | none =>
      rw [hrequest] at hrest
      exact ih 0 hrest

theorem byte_run :
    ∃ s' out, serve ⟨EventLoop.booted 1000, some [0x44]⟩ [[.initSock 0]] = .ok (s', out)
      ∧ ∃ m, Machine.run ⟨EventLoop.booted 1000, 7, none⟩ [.ready [.initSock (.data [0x44])]]
          = .ok m ∧ m.loop = s'.loop ∧ m.executed = out := by
  obtain ⟨s', out, hserve⟩ : ∃ s' out, serve ⟨EventLoop.booted 1000, some [0x44]⟩
      [[.initSock 0]] = .ok (s', out) := ⟨_, _, rfl⟩
  exact ⟨s', out, hserve, serve_run _ 7 hserve⟩

-- ==== requests

/-- The last request in a row of payloads, if there is one. -/
def lastRequest (r : Option ShutdownKind) (ps : List Payload) : Option ShutdownKind :=
  ps.foldl (fun r p => p.request.or r) r

theorem lastRequest_append (r : Option ShutdownKind) (ps qs : List Payload) :
    lastRequest r (ps ++ qs) = lastRequest (lastRequest r ps) qs :=
  List.foldl_append

/-- It is one of the row, or the one before. -/
theorem lastRequest_some (ps : List Payload) :
    ∀ {r : Option ShutdownKind} {kind : ShutdownKind}, lastRequest r ps = some kind →
      r = some kind ∨ ∃ p ∈ ps, p.request = some kind := by
  induction ps with
  | nil => exact fun h => .inl h
  | cons p ps ih =>
    intro r kind h
    rcases ih h with hr | ⟨q, hq, hkind⟩
    · rcases Option.or_eq_some_iff.1 hr with hp | ⟨-, hr⟩
      · exact .inr ⟨p, List.mem_cons_self, hp⟩
      · exact .inl hr
    · exact .inr ⟨q, List.mem_cons_of_mem _ hq, hkind⟩

theorem lastRequest_none (ps : List Payload) :
    ∀ {r : Option ShutdownKind}, lastRequest r ps = none →
      r = none ∧ ∀ p ∈ ps, p.request = none := by
  induction ps with
  | nil => exact fun h => ⟨h, nofun⟩
  | cons p ps ih =>
    intro r h
    obtain ⟨hr, hps⟩ := ih h
    obtain ⟨hp, hr⟩ := Option.or_eq_none_iff.1 hr
    exact ⟨hr, List.forall_mem_cons.2 ⟨hp, hps⟩⟩

/-- The messages are handled one by one; the last request stays. -/
theorem foldl_handleMessage (steps : List (Mem × InitMessage)) :
    ∀ {ps : List Payload} {l : EventLoop}, steps.map (fun x => .ok x.2) = ps.map Payload.parse →
      (steps.foldl (fun l x => l.handleMessage x.1 x.2) l).shutdownRequested
        = lastRequest l.shutdownRequested ps := by
  induction steps with
  | nil =>
    intro ps l h
    cases ps with
    | nil => rfl
    | cons p ps => cases h
  | cons x steps ih =>
    intro ps l h
    cases ps with
    | nil => cases h
    | cons p ps =>
      rw [List.map_cons, List.map_cons] at h
      obtain ⟨hp, hps⟩ := List.cons.inj h
      have hstep : (l.handleMessage x.1 x.2).shutdownRequested
          = p.request.or l.shutdownRequested := by
        rw [Payload.request, ← hp]
        cases x.2 with
        | heartbeat =>
          rw [EventLoop.handleMessage]
          split <;> rfl
        | requestShutdown kind => rfl
        | logToKmsg level message => rfl
        | unknown => rfl
      rw [List.foldl_cons, ih hps, hstep]
      rfl

/-- The buffer and the socket hold the rest of a stream of frames. -/
structure Serving (s : Session) (todo : List Payload) (bs : List UInt8) : Prop where
  sock : s.loop.svmgr.initSockFd ≠ none
  unread : s.unread = some bs
  stream : s.loop.ipcBuf.bytes ++ bs <+: wire Payload.frame todo
  pending : Pending Payload.frame todo s.loop.ipcBuf.bytes
  valid : ∀ p ∈ todo, ¬ OversizeLevel p.1

/-- From one session to a later one: the frames in between are handled,
nothing else has changed, and so many reads took a byte each at
least. -/
structure Advance (s : Session) (bs : List UInt8) (reads : Nat) (done : List Payload)
    (s' : Session) (bs' : List UInt8) : Prop where
  split : s.loop.ipcBuf.bytes ++ bs
    = wire Payload.frame done ++ (s'.loop.ipcBuf.bytes ++ bs')
  request : s'.loop.shutdownRequested = lastRequest s.loop.shutdownRequested done
  quiet : EventLoop.Quiet none s.loop s'.loop
  progress : bs'.length ≤ bs.length - reads

theorem Advance.refl (s : Session) (bs : List UInt8) : Advance s bs 0 [] s bs :=
  ⟨rfl, rfl, .refl _, Nat.le_refl _⟩

theorem Advance.trans {s₁ s₂ s₃ : Session} {bs₁ bs₂ bs₃ : List UInt8} {n m : Nat}
    {done done' : List Payload} (h : Advance s₁ bs₁ n done s₂ bs₂)
    (h' : Advance s₂ bs₂ m done' s₃ bs₃) : Advance s₁ bs₁ (n + m) (done ++ done') s₃ bs₃ := by
  refine ⟨?_, ?_, h.quiet.trans h'.quiet, ?_⟩
  · rw [h.split, h'.split, wire_append, List.append_assoc]
  · rw [h'.request, h.request, lastRequest_append]
  · have hle := h.progress
    have hle' := h'.progress
    omega

theorem deliver_initSock {bs : List UInt8} {n : Nat} {l : EventLoop} {b : ReadBuffer}
    (hsock : s.loop.svmgr.initSockFd ≠ none) (hunread : s.unread = some bs)
    (hreceive : s.loop.ipcBuf.receive EventLoop.handleMessage s.loop
      (.data (bs.take (s.amount n))) = .ok (l, b)) : s.deliver (.initSock n)
      = .ok ⟨{ l with ipcBuf := b }, some (bs.drop (s.amount n))⟩ := by
  obtain ⟨sock, hsock⟩ := Option.ne_none_iff_exists'.1 hsock
  have hevent : s.event (.initSock n) = .initSock (.data (bs.take (s.amount n))) := by
    rw [event, hunread]
  have hleft : s.left (.initSock n) = some (bs.drop (s.amount n)) := by
    unfold left
    rw [hunread]
    rfl
  have hhandle : s.loop.handle (s.event (.initSock n)) = .ok { l with ipcBuf := b } := by
    rw [hevent, EventLoop.handle, EventLoop.handleSvmgrMessage, hsock, hreceive]
    rfl
  rw [deliver, hhandle, hleft]
  rfl

variable {todo : List Payload} {bs : List UInt8}

theorem Serving.read (h : Serving s todo bs) (n : Nat) :
    ∃ done todo' s', todo = done ++ todo' ∧ s.deliver (.initSock n) = .ok s'
      ∧ Serving s' todo' (bs.drop (s.amount n))
      ∧ Advance s bs 1 done s' (bs.drop (s.amount n)) := by
  have hroom := ReadBuffer.len_lt_capacity h.pending
  have hamount : 0 < s.amount n ∧ s.amount n ≤ capacity - s.loop.ipcBuf.len := by
    unfold amount
    omega
  by_cases hbs : bs = []
  · -- The end of the stream: the read fails and nothing changes.
    subst hbs
    have hreceive : s.loop.ipcBuf.receive EventLoop.handleMessage s.loop
        (.data (List.take (s.amount n) [])) = .ok (s.loop, s.loop.ipcBuf) := by
      unfold ReadBuffer.receive ReadBuffer.readFrom
      rw [if_neg (by omega)]
      simp
    have hs : s = ⟨s.loop, some []⟩ := by rw [← h.unread]
    refine ⟨[], todo, s, rfl, ?_, ?_, ?_⟩
    · rw [deliver_initSock h.sock h.unread hreceive, List.drop_nil, ← hs]
    · rw [List.drop_nil]
      exact h
    · rw [List.drop_nil]
      exact ⟨rfl, rfl, .refl _, Nat.le_refl _⟩
  have hpos : 0 < bs.length := List.length_pos_iff.2 hbs
  have hchunk : (bs.take (s.amount n)).length = min (s.amount n) bs.length :=
    List.length_take
  have hprefix : s.loop.ipcBuf.bytes ++ bs.take (s.amount n)
      <+: wire Payload.frame todo :=
    ((List.prefix_append_right_inj _).2 (List.take_prefix _ _)).trans h.stream
  obtain ⟨done, todo', steps, b, rfl, hsplit, hpending, hsteps, -, hreceive⟩ :=
    ReadBuffer.receive_frames EventLoop.handleMessage hprefix (by omega) (by omega)
      h.valid s.loop
  have hdeliver := deliver_initSock h.sock h.unread hreceive
  have hall : s.loop.ipcBuf.bytes ++ bs
      = wire Payload.frame done ++ (b.bytes ++ bs.drop (s.amount n)) := by
    rw [← List.append_assoc, ← hsplit, List.append_assoc, List.take_append_drop]
  have hquiet : EventLoop.Quiet none s.loop _ := EventLoop.quiet_receive hreceive
  have hrequest : (steps.foldl (fun l x => l.handleMessage x.1 x.2) s.loop).shutdownRequested
      = lastRequest s.loop.shutdownRequested done := foldl_handleMessage steps hsteps
  refine ⟨done, todo', _, rfl, hdeliver, ⟨?_, rfl, ?_, hpending, ?_⟩, ⟨hall, hrequest, hquiet, ?_⟩⟩
  · rw [hquiet.svmgr]
    exact h.sock
  · have hstream := h.stream
    rw [hall, wire_append] at hstream
    exact (List.prefix_append_right_inj _).1 hstream
  · exact fun p hp => h.valid p (List.mem_append_right _ hp)
  · rw [List.length_drop]
    omega

theorem Serving.deliver (h : Serving s todo bs) {r : Ready} (hr : r.exits s.loop.svmgr = false) :
    ∃ done todo' s' bs', todo = done ++ todo' ∧ s.deliver r = .ok s'
      ∧ Serving s' todo' bs' ∧ Advance s bs ([r].countP Ready.reads) done s' bs' := by
  cases r with
  | initSock n =>
    obtain ⟨done, todo', s', htodo, hdeliver, hserving, hadvance⟩ := h.read n
    exact ⟨done, todo', s', _, htodo, hdeliver, hserving, hadvance⟩
  | svmgrPidfd a => cases hr
  | sigchld gone a =>
    have hnot : ¬ (s.loop.svmgr.pidfd = none ∧ s.loop.svmgr.pid ≠ none ∧ gone) := by
      rintro ⟨hpidfd, hpid, hgone⟩
      rw [Ready.exits, hpidfd, hgone, Option.isSome_iff_ne_none.2 hpid] at hr
      cases hr
    have hleft : s.left (.sigchld gone a) = s.unread :=
      if_neg (by rw [hr]; nofun)
    refine ⟨[], todo, s, bs, rfl, ?_, h, .refl s bs⟩
    show Except.ok (⟨s.loop.handleSignal (.childExited gone a), s.left _⟩ : Session) = _
    rw [EventLoop.childExited_ignored hnot, hleft]

theorem Serving.batch (batch : List Ready) :
    ∀ {s : Session} {todo : List Payload} {bs : List UInt8}, Serving s todo bs →
      (∀ r ∈ batch, r.exits s.loop.svmgr = false) →
      ∃ done todo' s' bs', todo = done ++ todo' ∧ batch.foldlM Session.deliver s = .ok s'
        ∧ Serving s' todo' bs' ∧ Advance s bs (batch.countP Ready.reads) done s' bs' := by
  induction batch with
  | nil => exact fun {s todo bs} h _ => ⟨[], todo, s, bs, rfl, rfl, h, .refl s bs⟩
  | cons r batch ih =>
    intro s todo bs h hexit
    obtain ⟨done, todo', s₁, bs₁, rfl, hdeliver, hserving, hadvance⟩ :=
      h.deliver (hexit r List.mem_cons_self)
    obtain ⟨done', todo'', s₂, bs₂, rfl, hbatch, hserving', hadvance'⟩ :=
      ih hserving fun r' hr' => by
        rw [hadvance.quiet.svmgr]
        exact hexit r' (List.mem_cons_of_mem _ hr')
    refine ⟨done ++ done', todo'', s₂, bs₂, (List.append_assoc _ _ _).symm, ?_, hserving', ?_⟩
    · rw [List.foldlM_cons, hdeliver]
      exact hbatch
    · rw [← List.singleton_append, List.countP_append]
      exact hadvance.trans hadvance'

/-- Batches that handle no exit, up to the shutdown. -/
theorem Serving.serve (batches : List (List Ready)) :
    ∀ {s : Session} {todo : List Payload} {bs : List UInt8}, Serving s todo bs →
      s.loop.shutdownRequested = none →
      (∀ batch ∈ batches, ∀ r ∈ batch, r.exits s.loop.svmgr = false) →
      ∃ done todo' s' bs' n, todo = done ++ todo'
        ∧ s.serve batches = .ok (s', lastRequest none done)
        ∧ Serving s' todo' bs' ∧ Advance s bs n done s' bs'
        ∧ (lastRequest none done = none → n = batches.flatten.countP Ready.reads) := by
  induction batches with
  | nil =>
    exact fun {s todo bs} h _ _ =>
      ⟨[], todo, s, bs, 0, rfl, rfl, h, .refl s bs, fun _ => rfl⟩
  | cons batch batches ih =>
    intro s todo bs h hcalm hexit
    obtain ⟨done, todo', s₁, bs₁, rfl, hbatch, hserving, hadvance⟩ :=
      Serving.batch batch h (hexit batch List.mem_cons_self)
    have hrequest := hadvance.request
    rw [hcalm] at hrequest
    cases hout : lastRequest none done with
    | some kind =>
      refine ⟨done, todo', s₁, bs₁, _, rfl, ?_, hserving, hadvance, ?_⟩
      · rw [hout] at hrequest ⊢
        rw [serve_cons hbatch, hrequest]
      · rw [hout]
        nofun
    | none =>
      rw [hout] at hrequest
      obtain ⟨done', todo'', s₂, bs₂, n, rfl, hserve, hserving', hadvance', hn⟩ :=
        ih hserving hrequest fun batch' hbatch' r hr => by
          rw [hadvance.quiet.svmgr]
          exact hexit batch' (List.mem_cons_of_mem _ hbatch') r hr
      have hlast : lastRequest none (done ++ done') = lastRequest none done' := by
        rw [lastRequest_append, hout]
      refine ⟨done ++ done', todo'', s₂, bs₂, _, (List.append_assoc _ _ _).symm, ?_,
        hserving', hadvance.trans hadvance', ?_⟩
      · rw [hlast, serve_cons hbatch, hrequest]
        exact hserve
      · intro hnone
        rw [hlast] at hnone
        rw [hn hnone, List.flatten_cons, List.countP_append]

/-- As long as the frames of a stream are not all handled, the socket is
not empty. -/
theorem Serving.unread_ne_nil {rest : List Payload} {p : Payload}
    (h : Serving s (rest ++ p :: todo) bs)
    (hwritten : wire Payload.frame (rest ++ [p]) <+: s.loop.ipcBuf.bytes ++ bs) : bs ≠ [] := by
  rintro rfl
  have hle := hwritten.length_le
  have hpending := h.pending
  rw [wire_append, List.append_nil, List.length_append, wire_cons, wire_nil,
    List.append_nil] at hle
  cases rest with
  | nil =>
    have hlt := hpending.2
    omega
  | cons q rest =>
    have hlt := hpending.2
    rw [wire_cons, List.length_append] at hle
    omega

/-- No exit is handled in the batches: svmgr is not respawned; a
shutdown that is executed is the one that was requested, unless svmgr
requested another one as well; and until one is executed the request is
still there, with its last byte in the socket, and every read has
brought it nearer. -/
theorem request_kept {before after : List Payload} {request : Payload}
    {kind : ShutdownKind} (hs : Serving s (before ++ request :: after) bs)
    (hwritten : wire Payload.frame (before ++ [request]) <+: s.loop.ipcBuf.bytes ++ bs)
    (hrequest : request.request = some kind)
    (hcalm : s.loop.shutdownRequested = none) (batches : List (List Ready))
    (hexit : ∀ batch ∈ batches, ∀ r ∈ batch, r.exits s.loop.svmgr = false) :
    ∃ s' out, s.serve batches = .ok (s', out)
      ∧ s'.loop.svmgr = s.loop.svmgr
      ∧ (∀ pid now, .spawned pid now ∉ s'.loop.log.drop s.loop.log.length)
      ∧ (∀ kind', out = some kind' → kind' = kind ∨ ∃ p ∈ before ++ after, p.request = some kind')
      ∧ (out = none → ∃ rest bs', s'.unread = some bs' ∧ bs' ≠ []
        ∧ wire Payload.frame (rest ++ [request]) <+: s'.loop.ipcBuf.bytes ++ bs'
        ∧ bs'.length + batches.flatten.countP Ready.reads ≤ bs.length) := by
  obtain ⟨done, todo', s', bs', n, hsplit, hserve, hserving, hadvance, hn⟩ :=
    hs.serve batches hcalm hexit
  refine ⟨s', _, hserve, hadvance.quiet.svmgr, ?_, ?_, ?_⟩
  · intro pid now hmem
    obtain ⟨notes, hlog, hsilent⟩ := hadvance.quiet.log
    rw [hlog, List.drop_left] at hmem
    exact hsilent _ hmem
  · intro kind' hkind'
    obtain ⟨p, hp, hpkind⟩ := (lastRequest_some done hkind').resolve_left nofun
    have hmem : p ∈ before ++ request :: after := hsplit ▸ List.mem_append_left _ hp
    rcases List.mem_append.1 hmem with hmem | hmem
    · exact .inr ⟨p, List.mem_append_left _ hmem, hpkind⟩
    · rcases List.mem_cons.1 hmem with rfl | hmem
      · exact .inl (Option.some.inj (hpkind.symm.trans hrequest))
      · exact .inr ⟨p, List.mem_append_right _ hmem, hpkind⟩
  · intro hnone
    have hdone := (lastRequest_none done hnone).2
    -- None of the handled frames is a request, so they end before it.
    obtain ⟨rest, rfl, rfl⟩ : ∃ rest, before = done ++ rest
        ∧ todo' = rest ++ request :: after := by
      rcases List.append_eq_append_iff.1 hsplit with ⟨c, hdone', htail⟩ | ⟨c, hbefore, htail⟩
      · cases c with
        | nil => exact ⟨[], by rw [hdone', List.append_nil, List.append_nil], htail.symm⟩
        | cons q c =>
          obtain ⟨rfl, -⟩ := List.cons.inj htail
          have hmem : request ∈ done := by rw [hdone']; simp
          rw [hdone _ hmem] at hrequest
          cases hrequest
      · exact ⟨c, hbefore, htail⟩
    have hstill : wire Payload.frame (rest ++ [request])
        <+: s'.loop.ipcBuf.bytes ++ bs' := by
      rw [hadvance.split, List.append_assoc, wire_append] at hwritten
      exact (List.prefix_append_right_inj _).1 hwritten
    have hne := hserving.unread_ne_nil hstill
    have hpos : 0 < bs'.length := List.length_pos_iff.2 hne
    have hprogress := hadvance.progress
    rw [hn hnone] at hprogress
    exact ⟨rest, bs', hserving.unread, hne, hstill, by omega⟩

/-- What svmgr writes to ask for a poweroff. -/
def poweroffMessage : Common.Message where
  id := 1
  kind := .event
  body := .requestShutdown .poweroff

def poweroff : Payload := payloadOf poweroffMessage (by decide)

theorem poweroff_meaning : Says poweroff.1 (.requestShutdown .poweroff) :=
  says_requestShutdown (m := poweroffMessage) rfl (Common.Message.fits (by decide))

theorem poweroff_request : poweroff.request = some .poweroff := by
  have hbytes : poweroff.slice.bytes (store (fun _ => 0) headerSize poweroff.1)
      = poweroff.1 := Slice.bytes_store (s := poweroff.slice) _ rfl
  have hmean := poweroff_meaning
  rw [← hbytes] at hmean
  have hparse : poweroff.parse = .ok (.requestShutdown .poweroff) := parse_meaning hmean
  rw [Payload.request, hparse]

theorem poweroff_ok : ¬ OversizeLevel poweroff.1 := by
  rintro ⟨level, text, off, h, -⟩
  cases poweroff_meaning.unique h

/-- The loop has read nothing, and the socket holds the request. -/
theorem serving_poweroff {l : EventLoop} (hsock : l.svmgr.initSockFd ≠ none)
    (hlen : l.ipcBuf.bytes = []) : Serving ⟨l, some poweroff.frame⟩
    [poweroff] poweroff.frame := by
  refine ⟨hsock, rfl, ?_, ?_, ?_⟩
  · rw [hlen, wire_cons, wire_nil, List.append_nil]
    exact List.prefix_refl _
  · rw [hlen]
    exact ⟨List.nil_prefix, by decide⟩
  · exact fun p hp => List.mem_singleton.1 hp ▸ poweroff_ok

/-- The request is read byte by byte. -/
theorem poweroff_kept : ∃ s', serve ⟨EventLoop.booted 1000, some poweroff.frame⟩
    (List.replicate poweroff.frame.length [.initSock 0]) = .ok (s', some .poweroff) := by
  have hs : Serving ⟨EventLoop.booted 1000, some poweroff.frame⟩
      ([] ++ poweroff :: []) poweroff.frame := serving_poweroff nofun rfl
  have hwritten : wire Payload.frame ([] ++ [poweroff]) <+: [] ++ poweroff.frame := by
    rw [List.nil_append, wire_cons, wire_nil, List.append_nil]
    exact List.prefix_refl _
  have hexit : ∀ batch ∈ List.replicate poweroff.frame.length [Ready.initSock 0],
      ∀ r ∈ batch, r.exits (EventLoop.booted 1000).svmgr = false := by
    intro batch hbatch r hr
    rw [(List.mem_replicate.1 hbatch).2, List.mem_singleton] at hr
    rw [hr]
    rfl
  obtain ⟨s', out, hserve, -, -, hkind, hnone⟩ :=
    request_kept hs hwritten poweroff_request rfl _ hexit
  cases out with
  | none =>
    obtain ⟨-, bs', -, hne, -, hle⟩ := hnone rfl
    have hreads : (List.replicate poweroff.frame.length
        [Ready.initSock 0]).flatten.countP Ready.reads = poweroff.frame.length := by
      decide
    have hpos : 0 < bs'.length := List.length_pos_iff.2 hne
    omega
  | some kind =>
    obtain rfl | ⟨p, hp, -⟩ := hkind kind rfl
    · exact ⟨s', hserve⟩
    · cases hp

/-- An emergency boot leads to svmgr in the grace window. -/
def recovered : EventLoop :=
  { EventLoop.booted 1000 with
    postEmergencyArmed := true
    log := [.shell, .spawned 100 1000] }

/-- The exit comes first: the request is gone, and svmgr is respawned.
The exit comes second in the same batch, in the grace window: init
reboots instead of the poweroff that was requested. -/
theorem request_lost : boot (fun _ => 0) 4 (EventLoop.bootAnswers 1000) = some (.booted 1000)
    ∧ (∃ s', serve ⟨EventLoop.booted 1000, some poweroff.frame⟩
        [[.svmgrPidfd (EventLoop.restartAt 50000 (.forked 101 5 (some 6) 51000) true),
          .initSock 65535]] = .ok (s', none)
      ∧ s'.loop.shutdownRequested = none ∧ s'.unread = none
      ∧ .spawned 101 51000 ∈ s'.loop.log)
    ∧ boot (fun _ => 0) 4 { EventLoop.bootAnswers 1000 with emergency := true }
      = some recovered
    ∧ ∃ s', serve ⟨recovered, some poweroff.frame⟩
        [[.initSock 65535, .svmgrPidfd (EventLoop.restartAt 50000 .forkFailed true)]]
      = .ok (s', some .reboot) := by
  refine ⟨rfl, ⟨_, rfl, rfl, rfl, by decide⟩, rfl, ?_⟩
  have hs : Serving ⟨recovered, some poweroff.frame⟩ [poweroff] poweroff.frame :=
    serving_poweroff nofun rfl
  obtain ⟨done, todo', s₁, -, hread, -, hadvance⟩ := hs.read 65535
  have hpath : s₁.loop.exitPath (EventLoop.restartAt 50000 .forkFailed true) = .reboot := by
    unfold EventLoop.exitPath
    rw [hadvance.quiet.pending, hadvance.quiet.armed, hadvance.quiet.svmgr]
    decide
  have hreboot : (s₁.loop.handleSvmgrExit
      (EventLoop.restartAt 50000 .forkFailed true)).shutdownRequested = some .reboot := by
    rw [EventLoop.handleSvmgrExit_eq, hpath]
  have hbatch : [Ready.initSock 65535,
      .svmgrPidfd (EventLoop.restartAt 50000 .forkFailed true)].foldlM Session.deliver
        ⟨recovered, some poweroff.frame⟩
      = .ok ⟨s₁.loop.handleSvmgrExit (EventLoop.restartAt 50000 .forkFailed true), none⟩ := by
    rw [List.foldlM_cons, hread]
    rfl
  have hserve := @serve_cons _ _ _ [] hbatch
  simp only [hreboot] at hserve
  exact ⟨_, hserve⟩

end Session

end Dynamod.Init
