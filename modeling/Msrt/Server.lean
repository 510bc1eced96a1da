import Msrt.Sessions

/-! # A server as a map of sessions

A server keeps its peers in a fixed array, takes the first free position for a new one and frees the
position of a peer that leaves.  Seen from one peer this is a session of its own (`onSession`): every
operation does to the slot of a peer what the peer's own operations ask for, whatever happens to the
others (`slotOf_run`), and returns what that slot returns (`result_run`).  So the slot of a stored
peer is the replay of the operations addressed to it since its entry was created
(`server_sessions`).
-/

namespace Msrt
open SlotTable

/-! ## Operations and their results -/

/-- What an operation of a slot returns. -/
inductive SlotResult where
  | unit
  | connected (result : Except Error MessageId)
  | sent (result : Except Error (Option MessageId))
  | received (report : ReceiveReport)
  | polled (result : Except Error EnginePoll)
  | idle (dropped : Bool)

/-- What the operation returns. -/
def SlotOp.result (op : SlotOp) (slot : PeerSlot) : SlotResult :=
  match op with
  | .connect nowMs => .connected (slot.connect nowMs).2
  | .acceptPassive _ | .acceptPassiveIfNeeded _ | .disconnect => .unit
  | .send message => .sent (slot.send message).2
  | .receive nowMs bytes => .received (slot.receive nowMs bytes).2
  | .poll nowMs txLen => .polled (slot.poll nowMs txLen).2
  | .disconnectIfIdle nowMs timeoutMs => .idle (slot.disconnectIfIdle nowMs timeoutMs).2

/-- The operations of a server; `peer` is any operation on a slot borrowed through `peerMut`. -/
inductive ServerOp (P : Type) where
  | accept (peerId : P) (nowMs : Nat)
  | disconnect (peerId : P)
  | receive (peerId : P) (nowMs : Nat) (bytes : Bytes)
  | poll (peerId : P) (nowMs txLen : Nat)
  | send (peerId : P) (message : Bytes)
  | peer (peerId : P) (op : SlotOp)
  | disconnectIdle (nowMs timeoutMs : Nat)

/-- What an operation of a server returns. -/
inductive ServerResult where
  | accepted (result : Except AcceptError Unit)
  | disconnected (known : Bool)
  | received (report : Option ReceiveReport)
  | polled (result : Option (Except Error EnginePoll))
  | sent (result : Option (Except Error (Option MessageId)))
  | peer (result : Option SlotResult)
  | idle (disconnected : Nat)

section Operations
variable {P : Type} {n : Nat} [DecidableEq P]

/-- The server an operation leaves, and what it returns. -/
def ServerOp.run (op : ServerOp P) (server : ServerEndpoint P n) :
    ServerEndpoint P n × ServerResult :=
  match op with
  | .accept peerId nowMs =>
    ((server.accept peerId nowMs).1, .accepted (server.accept peerId nowMs).2)
  | .disconnect peerId => ((server.disconnect peerId).1, .disconnected (server.disconnect peerId).2)
  | .receive peerId nowMs bytes =>
    ((server.receive peerId nowMs bytes).1, .received (server.receive peerId nowMs bytes).2)
  | .poll peerId nowMs txLen =>
    ((server.poll peerId nowMs txLen).1, .polled (server.poll peerId nowMs txLen).2)
  | .send peerId message => ((server.send peerId message).1, .sent (server.send peerId message).2)
  | .peer peerId op =>
    let used := server.peerMut peerId fun slot => (op.after slot, op.result slot)
    (used.1, .peer used.2)
  | .disconnectIdle nowMs timeoutMs =>
    ((server.disconnectIdle nowMs timeoutMs).1, .idle (server.disconnectIdle nowMs timeoutMs).2)

namespace ServerEndpoint

/-- The stored peers, in the order of their positions. -/
def peerIds (server : ServerEndpoint P n) : List P := (entries server.peers).map PeerEntry.peerId

/-- The slot of a peer. -/
def slotOf (server : ServerEndpoint P n) (p : P) : Option PeerSlot :=
  (SlotMap.lookup PeerEntry.peerId server.peers p).map PeerEntry.slot

/-- All positions are taken. -/
def isFull (server : ServerEndpoint P n) : Bool := server.peers.all Option.isSome

end ServerEndpoint

/-! ## The abstract server -/

namespace ServerOp

/-- What accepting a peer returns for what connecting its slot returned. -/
def acceptResult : Except Error MessageId → Except AcceptError Unit
  | .error e => .error (.engine e)
  | .ok _ => .ok ()

/-- What an operation does to the session of one peer.  All it needs of the other peers is whether
there is a position left. -/
def onSession (config : EngineConfig) (full : Bool) (p : P) (op : ServerOp P)
    (session : Option PeerSlot) : Option PeerSlot :=
  match op with
  | .accept peerId nowMs =>
    if peerId = p then
      match session with
      | some slot => some (slot.connect nowMs).1
      | none => if full then none else some ((PeerSlot.new config).connect nowMs).1
    else session
  | .disconnect peerId => if peerId = p then none else session
  | .receive peerId nowMs bytes =>
    if peerId = p then session.map fun slot => (slot.receive nowMs bytes).1 else session
  | .poll peerId nowMs txLen =>
    if peerId = p then session.map fun slot => (slot.poll nowMs txLen).1 else session
  | .send peerId message =>
    if peerId = p then session.map fun slot => (slot.send message).1 else session
  | .peer peerId op => if peerId = p then session.map op.after else session
  | .disconnectIdle nowMs timeoutMs =>
    session.bind fun slot =>
      if (slot.disconnectIfIdle nowMs timeoutMs).2 then none
      else some (slot.disconnectIfIdle nowMs timeoutMs).1

/-- What an operation returns, read off the sessions of the peers. -/
def resultOn (config : EngineConfig) (full : Bool) (peerIds : List P) (sessions : P → Option PeerSlot)
    (op : ServerOp P) : ServerResult :=
  match op with
  | .accept peerId nowMs => .accepted <|
    match sessions peerId with
    | some slot => acceptResult (slot.connect nowMs).2
    | none => if full then .error .full else acceptResult ((PeerSlot.new config).connect nowMs).2
  | .disconnect peerId => .disconnected (sessions peerId).isSome
  | .receive peerId nowMs bytes =>
    .received ((sessions peerId).map fun slot => (slot.receive nowMs bytes).2)
  | .poll peerId nowMs txLen =>
    .polled ((sessions peerId).map fun slot => (slot.poll nowMs txLen).2)
  | .send peerId message => .sent ((sessions peerId).map fun slot => (slot.send message).2)
  | .peer peerId op => .peer ((sessions peerId).map op.result)
  | .disconnectIdle nowMs timeoutMs =>
    .idle (peerIds.countP fun p =>
      (sessions p).any fun slot => (slot.disconnectIfIdle nowMs timeoutMs).2)

end ServerOp

/-! ## One operation -/

namespace ServerEndpoint
variable {server : ServerEndpoint P n} {p : P}

/-- Another entry at a position changes the session of one peer. -/
theorem slotOf_setPeer (hd : server.peerIds.Nodup) {index : Nat} {old : Option (PeerEntry P)}
    (entry : Option (PeerEntry P)) (h : server.peers[index]? = some old) (hold : ∀ e ∈ old, e.peerId = p)
    (hnew : ∀ e ∈ entry, e.peerId = p) (hfresh : old = none → server.slotOf p = none) :
    (server.setPeer index entry).peerIds.Nodup ∧ ∀ q, (server.setPeer index entry).slotOf q =
      if q = p then entry.map PeerEntry.slot else server.slotOf q := by
  obtain ⟨hd', hlookup⟩ := SlotMap.lookup_set hd h hold hnew
    (fun hnone => Option.map_eq_none_iff.mp (hfresh hnone))
  refine ⟨hd', ?_⟩
  intro q
  rw [slotOf, setPeer, hlookup q]
  split <;> rfl

theorem findIndex_eq_some (hd : server.peerIds.Nodup) {index : Nat}
    (h : server.findIndex p = some index) : ∃ entry, server.peers[index]? = some (some entry) ∧
      entry.peerId = p ∧ server.slotOf p = some entry.slot := by
  obtain ⟨entry, hentry, hid⟩ := SlotMap.indexOf_eq_some h
  have hmem : entry ∈ entries server.peers :=
    SlotMap.mem_entries.mpr (List.mem_of_getElem? hentry)
  refine ⟨entry, hentry, hid, ?_⟩
  rw [slotOf, (SlotMap.lookup_eq_some hd).mpr ⟨hmem, hid⟩]
  rfl

theorem findIndex_eq_none (h : server.findIndex p = none) : server.slotOf p = none :=
  Option.map_eq_none_iff.mpr (SlotMap.indexOf_eq_none.mp h)

omit [DecidableEq P] in
theorem vacantIndex_eq_none : server.vacantIndex = none ↔ server.isFull = true := by
  rw [vacantIndex, SlotMap.vacant_eq_none, isFull, List.all_eq_true]

/-- What an operation borrowed through `peerMut` does. -/
theorem peerMut_spec {β : Type} (hd : server.peerIds.Nodup) (op : PeerSlot → PeerSlot × β) :
    (server.peerMut p op).1.peerIds.Nodup ∧
      (∀ q, (server.peerMut p op).1.slotOf q =
        if p = q then (server.slotOf q).map fun slot => (op slot).1 else server.slotOf q) ∧
      (server.peerMut p op).2 = (server.slotOf p).map fun slot => (op slot).2 := by
  unfold peerMut
  cases hfind : server.findIndex p with
  | none =>
    have hnone := findIndex_eq_none hfind
    refine ⟨hd, ?_, by rw [hnone]; rfl⟩
    intro q
    by_cases hq : p = q
    · rw [if_pos hq, ← hq, hnone]
      rfl
    · rw [if_neg hq]
  | some index =>
    obtain ⟨entry, hentry, hid, hslot⟩ := findIndex_eq_some hd hfind
    dsimp only
    rw [hentry]
    dsimp only
    have hset := slotOf_setPeer hd (some { entry with slot := (op entry.slot).1 }) hentry
      (by rintro e ⟨⟩; exact hid) (by rintro e ⟨⟩; exact hid) (by simp)
    refine ⟨hset.1, ?_, by rw [hslot]; rfl⟩
    intro q
    rw [hset.2 q]
    by_cases hq : p = q
    · rw [if_pos hq, if_pos hq.symm, ← hq, hslot]
      rfl
    · rw [if_neg hq, if_neg fun h => hq h.symm]

/-- Connecting the slot at the position of a peer. -/
theorem reconnectAt_spec (hd : server.peerIds.Nodup) {index : Nat} {entry : PeerEntry P}
    (hentry : server.peers[index]? = some (some entry)) (hid : entry.peerId = p) (nowMs : Nat) :
    (server.reconnectAt index nowMs).1.peerIds.Nodup ∧
      (∀ q, (server.reconnectAt index nowMs).1.slotOf q =
        if p = q then some (entry.slot.connect nowMs).1 else server.slotOf q) ∧
      (server.reconnectAt index nowMs).2 = ServerOp.acceptResult (entry.slot.connect nowMs).2 := by
  unfold reconnectAt
  rw [hentry]
  dsimp only
  have hset := slotOf_setPeer hd (some { entry with slot := (entry.slot.connect nowMs).1 }) hentry
    (by rintro e ⟨⟩; exact hid) (by rintro e ⟨⟩; exact hid) (by simp)
  refine ⟨hset.1, ?_, ?_⟩
  · intro q
    rw [hset.2 q]
    by_cases hq : p = q
    · rw [if_pos hq, if_pos hq.symm]
      rfl
    · rw [if_neg hq, if_neg fun h => hq h.symm]
  · cases (entry.slot.connect nowMs).2 <;> rfl

theorem accept_spec (hd : server.peerIds.Nodup) (nowMs : Nat) :
    (server.accept p nowMs).1.peerIds.Nodup ∧
      (∀ q, (server.accept p nowMs).1.slotOf q =
        (ServerOp.accept p nowMs).onSession server.config server.isFull q (server.slotOf q)) ∧
      ServerResult.accepted (server.accept p nowMs).2 = (ServerOp.accept p nowMs).resultOn
        server.config server.isFull server.peerIds server.slotOf := by
  unfold accept ServerOp.onSession ServerOp.resultOn
  cases hfind : server.findIndex p with
  | some index =>
    -- a known peer keeps its position and gets a fresh session
    obtain ⟨entry, hentry, hid, hslot⟩ := findIndex_eq_some hd hfind
    obtain ⟨hd', hslots, hresult⟩ := reconnectAt_spec hd hentry hid nowMs
    refine ⟨hd', ?_, ?_⟩
    · intro q
      dsimp only
      rw [hslots q]
      by_cases hq : p = q
      · rw [if_pos hq, if_pos hq, ← hq, hslot]
      · rw [if_neg hq, if_neg hq]
    · dsimp only
      rw [hresult, hslot]
  | none =>
    have hnone := findIndex_eq_none hfind
    dsimp only
    cases hvacant : server.vacantIndex with
    | none =>
      have hfull := vacantIndex_eq_none.mp hvacant
      refine ⟨hd, ?_, ?_⟩
      · intro q
        dsimp only
        by_cases hq : p = q
        · rw [if_pos hq, ← hq, hnone, hfull]
          rfl
        · rw [if_neg hq]
      · dsimp only
        rw [hnone, hfull]
        rfl
    | some index =>
      have hfull : server.isFull = false := by
        rw [Bool.eq_false_iff]
        intro h
        rw [vacantIndex_eq_none.mpr h] at hvacant
        cases hvacant
      have hempty := SlotMap.vacant_eq_some hvacant
      have hset := slotOf_setPeer hd (some ⟨p, .new server.config⟩) hempty (by simp)
        (by rintro e ⟨⟩; rfl) (fun _ => hnone)
      have hentry : (server.setPeer index (some ⟨p, .new server.config⟩)).peers[index]? =
          some (some ⟨p, .new server.config⟩) := by
        rw [setPeer, List.getElem?_set_self']
        rw [hempty]
        rfl
      obtain ⟨hd', hslots, hresult⟩ := reconnectAt_spec hset.1 hentry rfl nowMs
      refine ⟨hd', ?_, ?_⟩
      · intro q
        dsimp only
        rw [hslots q, hset.2 q]
        by_cases hq : p = q
        · rw [if_pos hq, if_pos hq, ← hq, hnone, hfull]
          rfl
        · rw [if_neg hq, if_neg hq, if_neg fun h => hq h.symm]
      · dsimp only
        rw [hresult, hnone, hfull]
        rfl

theorem disconnect_spec (hd : server.peerIds.Nodup) :
    (server.disconnect p).1.peerIds.Nodup ∧
      (∀ q, (server.disconnect p).1.slotOf q = if p = q then none else server.slotOf q) ∧
      (server.disconnect p).2 = (server.slotOf p).isSome := by
  unfold disconnect
  cases hfind : server.findIndex p with
  | none =>
    have hnone := findIndex_eq_none hfind
    refine ⟨hd, ?_, by rw [hnone]; rfl⟩
    intro q
    by_cases hq : p = q
    · rw [if_pos hq, ← hq, hnone]
    · rw [if_neg hq]
  | some index =>
    obtain ⟨entry, hentry, hid, hslot⟩ := findIndex_eq_some hd hfind
    have hset := slotOf_setPeer hd none hentry (by rintro e ⟨⟩; exact hid) (by simp) (by simp)
    refine ⟨hset.1, ?_, by rw [hslot]; rfl⟩
    intro q
    dsimp only
    rw [hset.2 q]
    by_cases hq : p = q
    · rw [if_pos hq, if_pos hq.symm]
      rfl
    · rw [if_neg hq, if_neg fun h => hq h.symm]

/-- What a sweep for idle peers does to one entry. -/
def sweepEntry (nowMs timeoutMs : Nat) (entry : PeerEntry P) : Option (PeerEntry P) :=
  if (entry.slot.disconnectIfIdle nowMs timeoutMs).2 then none
  else some { entry with slot := (entry.slot.disconnectIfIdle nowMs timeoutMs).1 }

omit [DecidableEq P] in
theorem disconnectIdleLoop_eq (nowMs timeoutMs : Nat) (peers : List (Option (PeerEntry P)))
    (disconnected : Nat) : disconnectIdleLoop nowMs timeoutMs peers disconnected =
      (SlotMap.sweep (sweepEntry nowMs timeoutMs) peers, disconnected +
        (entries peers).countP fun entry => (entry.slot.disconnectIfIdle nowMs timeoutMs).2) := by
  induction peers generalizing disconnected with
  | nil => rfl
  | cons peer peers ih =>
    cases peer with
    | none =>
      rw [disconnectIdleLoop, ih]
      rfl
    | some entry =>
      unfold disconnectIdleLoop
      dsimp only
      rw [entries_some, List.countP_cons, ih, ih]
      by_cases hidle : (entry.slot.disconnectIfIdle nowMs timeoutMs).2 = true
      · have hsweep : (some entry).bind (sweepEntry nowMs timeoutMs) = none := if_pos hidle
        rw [if_pos hidle, if_pos hidle, SlotMap.sweep_cons, hsweep]
        simp only [Prod.mk.injEq, true_and]
        omega
      · have hsweep : (some entry).bind (sweepEntry nowMs timeoutMs) =
            some { entry with slot := (entry.slot.disconnectIfIdle nowMs timeoutMs).1 } :=
          if_neg hidle
        rw [if_neg hidle, if_neg hidle, SlotMap.sweep_cons, hsweep]
        rfl

theorem disconnectIdle_spec (hd : server.peerIds.Nodup) (nowMs timeoutMs : Nat) :
    (server.disconnectIdle nowMs timeoutMs).1.peerIds.Nodup ∧
      (∀ q, (server.disconnectIdle nowMs timeoutMs).1.slotOf q =
        (ServerOp.disconnectIdle nowMs timeoutMs).onSession server.config server.isFull q
          (server.slotOf q)) ∧
      ServerResult.idle (server.disconnectIdle nowMs timeoutMs).2 =
        (ServerOp.disconnectIdle nowMs timeoutMs).resultOn server.config server.isFull
          server.peerIds server.slotOf := by
  have hkeys (x y : PeerEntry P) (h : sweepEntry nowMs timeoutMs x = some y) :
      y.peerId = x.peerId := by
    unfold sweepEntry at h
    split at h
    · cases h
    · obtain rfl := Option.some.inj h
      rfl
  obtain ⟨hd', hlookup⟩ := SlotMap.lookup_sweep hd hkeys
  have hloop := disconnectIdleLoop_eq nowMs timeoutMs server.peers 0
  unfold disconnectIdle ServerOp.onSession ServerOp.resultOn
  refine ⟨?_, ?_, ?_⟩
  · unfold peerIds
    dsimp only
    rw [hloop]
    exact hd'
  · intro q
    unfold slotOf
    dsimp only
    rw [hloop, hlookup q]
    cases SlotMap.lookup PeerEntry.peerId server.peers q with
    | none => rfl
    | some entry =>
      simp only [Option.bind_some, Option.map_some, sweepEntry]
      split <;> rfl
  · dsimp only
    rw [hloop, Nat.zero_add, peerIds, List.countP_map]
    -- the loop counts the entries it clears
    refine congrArg ServerResult.idle (List.countP_congr ?_)
    intro entry hentry
    have hslot : server.slotOf entry.peerId = some entry.slot := by
      rw [slotOf, (SlotMap.lookup_eq_some hd).mpr ⟨hentry, rfl⟩]
      rfl
    simp [hslot]

end ServerEndpoint

open ServerEndpoint in
/-- **A server refines a map of independent sessions**: every operation keeps the stored peers
distinct, does to each session what `onSession` says, and returns what the sessions return. -/
theorem ServerOp.run_spec {server : ServerEndpoint P n} (hd : server.peerIds.Nodup) (op : ServerOp P) :
    (op.run server).1.peerIds.Nodup ∧
      (∀ p, (op.run server).1.slotOf p =
        op.onSession server.config server.isFull p (server.slotOf p)) ∧
      (op.run server).2 =
        op.resultOn server.config server.isFull server.peerIds server.slotOf := by
  cases op with
  | accept p nowMs => exact accept_spec hd nowMs
  | disconnectIdle nowMs timeoutMs => exact disconnectIdle_spec hd nowMs timeoutMs
  | disconnect p =>
    obtain ⟨hd', hslots, hresult⟩ := disconnect_spec (p := p) hd
    exact ⟨hd', hslots, congrArg ServerResult.disconnected hresult⟩
  | receive p nowMs bytes =>
    obtain ⟨hd', hslots, hresult⟩ := peerMut_spec (p := p) hd fun slot => slot.receive nowMs bytes
    exact ⟨hd', hslots, congrArg ServerResult.received hresult⟩
  | poll p nowMs txLen =>
    obtain ⟨hd', hslots, hresult⟩ := peerMut_spec (p := p) hd fun slot => slot.poll nowMs txLen
    exact ⟨hd', hslots, congrArg ServerResult.polled hresult⟩
  | send p message =>
    obtain ⟨hd', hslots, hresult⟩ := peerMut_spec (p := p) hd fun slot => slot.send message
    exact ⟨hd', hslots, congrArg ServerResult.sent hresult⟩
  | peer p op =>
    obtain ⟨hd', hslots, hresult⟩ :=
      peerMut_spec (p := p) hd fun slot => (op.after slot, op.result slot)
    exact ⟨hd', hslots, congrArg ServerResult.peer hresult⟩

/-- No operation changes the configuration. -/
theorem ServerOp.config_run (server : ServerEndpoint P n) (op : ServerOp P) :
    (op.run server).1.config = server.config := by
  have hpeer {β : Type} (p : P) (f : PeerSlot → PeerSlot × β) :
      (server.peerMut p f).1.config = server.config := by
    unfold ServerEndpoint.peerMut
    split
    · rfl
    · split <;> rfl
  have hconnect (server : ServerEndpoint P n) (index nowMs : Nat) :
      (server.reconnectAt index nowMs).1.config = server.config := by
    unfold ServerEndpoint.reconnectAt
    split <;> rfl
  cases op with
  | accept p nowMs =>
    simp only [run, ServerEndpoint.accept]
    split
    · exact hconnect _ _ _
    · split
      · rfl
      · exact hconnect _ _ _
  | disconnect p =>
    simp only [run, ServerEndpoint.disconnect]
    split <;> rfl
  | receive p nowMs bytes => exact hpeer p _
  | poll p nowMs txLen => exact hpeer p _
  | send p message => exact hpeer p _
  | peer p op => exact hpeer p _
  | disconnectIdle nowMs timeoutMs => rfl

/-! ## Runs -/

/-- The operation of its slot an operation of the server amounts to for a peer. -/
def ServerOp.addressed (p : P) : ServerOp P → Option SlotOp
  | .accept peerId nowMs => if peerId = p then some (.connect nowMs) else none
  | .disconnect _ => none
  | .receive peerId nowMs bytes => if peerId = p then some (.receive nowMs bytes) else none
  | .poll peerId nowMs txLen => if peerId = p then some (.poll nowMs txLen) else none
  | .send peerId message => if peerId = p then some (.send message) else none
  | .peer peerId op => if peerId = p then some op else none
  | .disconnectIdle nowMs timeoutMs => some (.disconnectIfIdle nowMs timeoutMs)

/-- The operations on a fresh slot. -/
def replay (config : EngineConfig) (ops : List SlotOp) : PeerSlot :=
  ops.foldl (fun slot op => op.after slot) (.new config)

/-- The server after a sequence of operations. -/
def runServer (config : EngineConfig) (n : Nat) (ops : List (ServerOp P)) : ServerEndpoint P n :=
  ops.foldl (fun server op => (op.run server).1) (.new config)

/-- One more operation: what is addressed to a peer while it is stored. -/
def logStep (p : P) (run : ServerEndpoint P n × List SlotOp) (op : ServerOp P) :
    ServerEndpoint P n × List SlotOp :=
  ((op.run run.1).1,
    if p ∈ (op.run run.1).1.peerIds then run.2 ++ (op.addressed p).toList else [])

/-- The operations addressed to a peer since its entry was created. -/
def entryLog (config : EngineConfig) (n : Nat) (p : P) (ops : List (ServerOp P)) : List SlotOp :=
  (ops.foldl (logStep (n := n) p) (.new config, [])).2

section Run
variable (config : EngineConfig) (ops : List (ServerOp P)) (op : ServerOp P) (p : P)

theorem runServer_snoc : runServer config n (ops ++ [op]) = (op.run (runServer config n ops)).1 := by
  rw [runServer, List.foldl_append]
  rfl

theorem foldl_logStep_fst :
    (ops.foldl (logStep p) (.new config, [])).1 = runServer config n ops := by
  induction ops using List.reverseRecOn with
  | nil => rfl
  | append_singleton ops op ih =>
    rw [List.foldl_append, runServer_snoc, ← ih]
    rfl

theorem entryLog_snoc : entryLog config n p (ops ++ [op]) =
    if p ∈ (runServer config n (ops ++ [op])).peerIds then
      entryLog config n p ops ++ (op.addressed p).toList else [] := by
  rw [runServer_snoc, ← foldl_logStep_fst config ops p, entryLog, List.foldl_append]
  rfl

/-- Nothing is kept of a peer that is not stored. -/
theorem entryLog_eq_nil {ops : List (ServerOp P)} {p : P} (h : p ∉ (runServer config n ops).peerIds) :
    entryLog config n p ops = [] := by
  rcases List.eq_nil_or_concat ops with rfl | ⟨ops, op, rfl⟩
  · rfl
  · rw [List.concat_eq_append] at h ⊢
    rw [entryLog_snoc, if_neg h]

theorem runServer_config : (runServer config n ops : ServerEndpoint P n).config = config := by
  induction ops using List.reverseRecOn with
  | nil => rfl
  | append_singleton ops op ih =>
    rw [runServer_snoc, ServerOp.config_run]
    exact ih

theorem peerIds_nodup : (runServer config n ops : ServerEndpoint P n).peerIds.Nodup := by
  induction ops using List.reverseRecOn with
  | nil =>
    show ((entries (List.replicate n none)).map PeerEntry.peerId).Nodup
    rw [entries_replicate_none]
    exact List.nodup_nil
  | append_singleton ops op ih =>
    rw [runServer_snoc]
    exact (op.run_spec ih).1

end Run

theorem ServerEndpoint.slotOf_eq_none {server : ServerEndpoint P n} {p : P} :
    server.slotOf p = none ↔ p ∉ server.peerIds := by
  rw [slotOf, Option.map_eq_none_iff, SlotMap.lookup_eq_none, peerIds, List.mem_map]
  constructor
  · rintro h ⟨entry, hentry, hid⟩
    exact h entry hentry hid
  · exact fun h entry hentry hid => h ⟨entry, hentry, hid⟩

/-- A session that an operation keeps or creates has made the operation addressed to it. -/
theorem ServerOp.onSession_eq_some {config : EngineConfig} {full : Bool} {p : P} {op : ServerOp P}
    {session : Option PeerSlot} {slot : PeerSlot}
    (h : op.onSession config full p session = some slot) :
    slot = (op.addressed p).toList.foldl (fun slot op => op.after slot)
      (session.getD (.new config)) := by
  cases op with
  | accept peerId nowMs =>
    simp only [onSession, addressed] at h ⊢
    by_cases hp : peerId = p
    · rw [if_pos hp] at h ⊢
      cases session with
      | some old => exact (Option.some.inj h).symm
      | none =>
        dsimp only at h
        split at h
        · cases h
        · exact (Option.some.inj h).symm
    · rw [if_neg hp] at h ⊢
      rw [h]
      rfl
  | disconnect peerId =>
    simp only [onSession, addressed] at h ⊢
    split at h
    · cases h
    · rw [h]
      rfl
  | receive peerId | poll peerId | send peerId | peer peerId =>
    simp only [onSession, addressed] at h ⊢
    by_cases hp : peerId = p
    · rw [if_pos hp] at h ⊢
      obtain ⟨old, rfl, rfl⟩ := Option.map_eq_some_iff.mp h
      rfl
    · rw [if_neg hp] at h ⊢
      rw [h]
      rfl
  | disconnectIdle nowMs timeoutMs =>
    obtain ⟨old, rfl, hkept⟩ := Option.bind_eq_some_iff.mp h
    split at hkept
    · cases hkept
    · exact (Option.some.inj hkept).symm

/-- **The session of a stored peer is the replay of what was addressed to it.** -/
theorem slotOf_runServer (config : EngineConfig) (n : Nat) (ops : List (ServerOp P)) (p : P) :
    (runServer config n ops).slotOf p = if p ∈ (runServer config n ops).peerIds then
      some (replay config (entryLog config n p ops)) else none := by
  induction ops using List.reverseRecOn with
  | nil =>
    have hnone : p ∉ (runServer config n ([] : List (ServerOp P))).peerIds := by
      show p ∉ (entries (List.replicate n none)).map PeerEntry.peerId
      rw [entries_replicate_none]
      exact List.not_mem_nil
    rw [if_neg hnone, ServerEndpoint.slotOf_eq_none]
    exact hnone
  | append_singleton ops op ih =>
    by_cases hknown : p ∈ (runServer config n (ops ++ [op])).peerIds
    · obtain ⟨slot, hslot⟩ : ∃ slot, (runServer config n (ops ++ [op])).slotOf p = some slot := by
        rw [← Option.ne_none_iff_exists']
        exact fun hnone => ServerEndpoint.slotOf_eq_none.mp hnone hknown
      have hstep := hslot
      rw [runServer_snoc, (op.run_spec (peerIds_nodup config ops)).2.1,
        runServer_config] at hstep
      rw [if_pos hknown, hslot, ServerOp.onSession_eq_some hstep, entryLog_snoc, if_pos hknown,
        replay, List.foldl_append, ih]
      -- without an entry nothing has been addressed to the peer yet
      by_cases hbefore : p ∈ (runServer config n ops).peerIds
      · rw [if_pos hbefore]
        rfl
      · rw [if_neg hbefore, entryLog_eq_nil config hbefore]
        rfl
    · rw [if_neg hknown, ServerEndpoint.slotOf_eq_none]
      exact hknown

/-- A peer is refused exactly when it is unknown and all positions are taken, and then nothing
changes. -/
theorem ServerEndpoint.accept_full {server : ServerEndpoint P n} (hd : server.peerIds.Nodup) (p : P)
    (nowMs : Nat) :
    ((server.accept p nowMs).2 = .error .full ↔
        p ∉ server.peerIds ∧ ∀ peer ∈ server.peers, peer.isSome = true) ∧
      ((server.accept p nowMs).2 = .error .full → (server.accept p nowMs).1 = server) := by
  have hengine (result : Except Error MessageId) : ServerOp.acceptResult result ≠ .error .full := by
    cases result <;> simp [ServerOp.acceptResult]
  have hresult := ServerResult.accepted.inj (accept_spec (p := p) hd nowMs).2.2
  rw [← slotOf_eq_none, ← List.all_eq_true]
  cases hslot : server.slotOf p with
  | some slot =>
    rw [hslot] at hresult
    dsimp only at hresult
    rw [hresult]
    refine ⟨iff_of_false (hengine _) (by simp), fun h => absurd h (hengine _)⟩
  | none =>
    -- an unknown peer has no index, so the first vacant position is looked for
    have hfind : server.findIndex p = none := by
      cases hfind : server.findIndex p with
      | none => rfl
      | some index =>
        obtain ⟨entry, -, -, hsome⟩ := findIndex_eq_some hd hfind
        rw [hslot] at hsome
        cases hsome
    rw [hslot] at hresult
    dsimp only at hresult
    cases hfull : server.isFull with
    | true =>
      rw [hfull, if_pos rfl] at hresult
      refine ⟨iff_of_true hresult ⟨rfl, hfull⟩, ?_⟩
      intro _
      unfold accept
      rw [hfind, vacantIndex_eq_none.mpr hfull]
    | false =>
      rw [hfull, if_neg (by simp)] at hresult
      rw [hresult]
      refine ⟨iff_of_false (hengine _) ?_, fun h => absurd h (hengine _)⟩
      intro h
      rw [show server.isFull = true from h.2] at hfull
      cases hfull

/-- **A server is a map of independent sessions.**  The stored peers are distinct; the slot of each is
the replay of what was addressed to it since its entry was created; what an operation returns is read
off these replays; and a peer is refused exactly when it is unknown and there is no position left. -/
theorem server_sessions (config : EngineConfig) (n : Nat) (ops : List (ServerOp P)) :
    (runServer config n ops).peerIds.Nodup ∧
      (∀ entry ∈ entries (runServer config n ops).peers,
        entry.slot = replay config (entryLog config n entry.peerId ops)) ∧
      (∀ op : ServerOp P, (op.run (runServer config n ops)).2 =
        op.resultOn config (runServer config n ops).isFull (runServer config n ops).peerIds fun p =>
          if p ∈ (runServer config n ops).peerIds then
            some (replay config (entryLog config n p ops)) else none) ∧
      ∀ p nowMs, (((runServer config n ops).accept p nowMs).2 = .error .full ↔
          p ∉ (runServer config n ops).peerIds ∧
            ∀ peer ∈ (runServer config n ops).peers, peer.isSome = true) ∧
        (((runServer config n ops).accept p nowMs).2 = .error .full →
          ((runServer config n ops).accept p nowMs).1 = runServer config n ops) := by
  have hd := peerIds_nodup (n := n) config ops
  refine ⟨hd, ?_, ?_, fun p nowMs =>
    ServerEndpoint.accept_full hd p nowMs⟩
  · intro entry hentry
    have hknown : entry.peerId ∈ (runServer config n ops).peerIds :=
      List.mem_map.mpr ⟨entry, hentry, rfl⟩
    have hslot := slotOf_runServer config n ops entry.peerId
    rw [if_pos hknown, ServerEndpoint.slotOf,
      (SlotMap.lookup_eq_some hd).mpr ⟨hentry, rfl⟩] at hslot
    exact Option.some.inj hslot
  · intro op
    have hslots : (runServer config n ops).slotOf = fun p =>
        if p ∈ (runServer config n ops).peerIds then
          some (replay config (entryLog config n p ops)) else none :=
      funext (slotOf_runServer config n ops)
    rw [(op.run_spec hd).2.2, runServer_config, hslots]

/-! ## Clean-up -/

/-- The entry has a session that was heard from less than `timeoutMs` ago. -/
def PeerEntry.isLive (entry : PeerEntry P) (nowMs timeoutMs : Nat) : Bool :=
  entry.slot.hasSession && decide (nowMs - entry.slot.lastSeenMs < timeoutMs)

/-- What a clean-up of idle peers is for: it leaves live peers only, leaves these where and as they
were, and counts the entries it has removed. -/
structure ServerEndpoint.CleansUp (server : ServerEndpoint P n) (nowMs timeoutMs : Nat) : Prop where
  live : ∀ entry ∈ entries (server.disconnectIdle nowMs timeoutMs).1.peers,
    PeerEntry.isLive entry nowMs timeoutMs = true
  kept : ∀ (index : Nat) (entry : PeerEntry P), server.peers[index]? = some (some entry) →
    entry.isLive nowMs timeoutMs = true →
      (server.disconnectIdle nowMs timeoutMs).1.peers[index]? = some (some entry)
  counted : (server.disconnectIdle nowMs timeoutMs).2 +
    (entries (server.disconnectIdle nowMs timeoutMs).1.peers).length = (entries server.peers).length

namespace ServerEndpoint

omit [DecidableEq P] in
/-- The sweep drops the entries whose session is idle; an entry without a session is kept. -/
theorem sweepEntry_eq (nowMs timeoutMs : Nat) (entry : PeerEntry P) :
    sweepEntry nowMs timeoutMs entry =
      if entry.slot.hasSession = true ∧ entry.isLive nowMs timeoutMs = false then none
      else some entry := by
  unfold sweepEntry PeerSlot.disconnectIfIdle PeerEntry.isLive PeerSlot.hasSession
  cases entry.slot.engine.isSome with
  | false => rfl
  | true =>
    by_cases hidle : nowMs - entry.slot.lastSeenMs ≥ timeoutMs
    · simp [hidle]
    · simp [hidle, Nat.lt_of_not_ge hidle]

omit [DecidableEq P] in
theorem peers_disconnectIdle (server : ServerEndpoint P n) (nowMs timeoutMs : Nat) :
    (server.disconnectIdle nowMs timeoutMs).1.peers =
      SlotMap.sweep (sweepEntry nowMs timeoutMs) server.peers :=
  congrArg Prod.fst (disconnectIdleLoop_eq nowMs timeoutMs server.peers 0)

omit [DecidableEq P] in
/-- Every entry is either removed and counted, or kept as it is. -/
theorem count_disconnectIdle (server : ServerEndpoint P n) (nowMs timeoutMs : Nat) :
    (server.disconnectIdle nowMs timeoutMs).2 +
      (entries (server.disconnectIdle nowMs timeoutMs).1.peers).length =
        (entries server.peers).length := by
  have hcount : (server.disconnectIdle nowMs timeoutMs).2 = (entries server.peers).countP fun entry =>
      (entry.slot.disconnectIfIdle nowMs timeoutMs).2 := by
    have hloop := congrArg Prod.snd (disconnectIdleLoop_eq nowMs timeoutMs server.peers 0)
    rw [Nat.zero_add] at hloop
    exact hloop
  rw [peers_disconnectIdle, SlotMap.entries_sweep, hcount]
  induction entries server.peers with
  | nil => rfl
  | cons entry peers ih =>
    rw [List.countP_cons, List.filterMap_cons, List.length_cons]
    unfold sweepEntry
    by_cases hidle : (entry.slot.disconnectIfIdle nowMs timeoutMs).2 = true
    · rw [if_pos hidle, if_pos hidle]
      dsimp only
      unfold sweepEntry at ih
      omega
    · rw [if_neg hidle, if_neg hidle]
      dsimp only
      rw [List.length_cons]
      unfold sweepEntry at ih
      omega

end ServerEndpoint

/-- **When a clean-up leaves only live peers**: exactly when no entry has lost its session before, for
the clean-up skips an entry without a session. -/
theorem cleansUp_iff (config : EngineConfig) (n : Nat) (ops : List (ServerOp P))
    (nowMs timeoutMs : Nat) :
    (runServer config n ops).CleansUp nowMs timeoutMs ↔
      ∀ entry ∈ entries (runServer config n ops).peers, entry.slot.hasSession = true := by
  generalize runServer config n ops = server
  have hsweep := server.peers_disconnectIdle nowMs timeoutMs
  constructor
  · intro h entry hentry
    by_contra hdead
    have hkept : entry ∈ entries (server.disconnectIdle nowMs timeoutMs).1.peers := by
      rw [hsweep, SlotMap.entries_sweep, List.mem_filterMap]
      exact ⟨entry, hentry, by rw [ServerEndpoint.sweepEntry_eq, if_neg fun h => hdead h.1]⟩
    have hlive := h.live entry hkept
    rw [PeerEntry.isLive, Bool.and_eq_true] at hlive
    exact hdead hlive.1
  · intro hsessions
    refine ⟨?_, ?_,
      server.count_disconnectIdle nowMs timeoutMs⟩
    · intro entry hentry
      rw [hsweep, SlotMap.entries_sweep, List.mem_filterMap] at hentry
      obtain ⟨old, hold, hswept⟩ := hentry
      rw [ServerEndpoint.sweepEntry_eq] at hswept
      split at hswept
      · cases hswept
      · rename_i hkept
        obtain rfl := Option.some.inj hswept
        simpa [hsessions old hold] using hkept
    · intro index entry hentry hlive
      rw [hsweep, SlotMap.sweep, List.getElem?_map, hentry, Option.map_some, Option.bind_some,
        ServerEndpoint.sweepEntry_eq, if_neg]
      intro h
      rw [h.2] at hlive
      cases hlive

/-- A poll without room for a byte drops the session of the only peer of a full server: the clean-up
then removes nothing, and no other peer is accepted. -/
theorem not_cleansUp :
    let ops : List (ServerOp Nat) := [.accept 1 0, .poll 1 0 0]
    let server := runServer .default 1 ops
    ¬ server.CleansUp 1000000 1 ∧ (server.disconnectIdle 1000000 1).2 = 0 ∧
      ((server.disconnectIdle 1000000 1).1.accept 2 1000000).2 = .error .full := by
  intro ops server
  refine ⟨?_, by decide +kernel, by decide +kernel⟩
  intro h
  have hall : (entries (server.disconnectIdle 1000000 1).1.peers).all
      (·.isLive 1000000 1) = true := List.all_eq_true.mpr h.live
  revert hall
  decide +kernel

end Operations

end Msrt
