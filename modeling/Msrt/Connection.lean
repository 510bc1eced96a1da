import Msrt.Endpoint
import Msrt.ReceiveStream

/-! # What a slot learns from a chunk

One receive may handle many items of the stream, each with a report of its own (`streamReports`),
but the slot sees only the last one (`PeerSlot.receive_connection`).  An accepted packet or a PONG
that stands earlier in the chunk goes unnoticed, so the connection state accounts for a whole chunk
exactly when the last item says what the earlier ones did (`connection_accounts_iff`).
-/

namespace Msrt
open EngineState

namespace EngineState
variable {config : EngineConfig} {st : EngineState}

/-- The reports of the items of the stream that a receive of `bytes` handles. -/
def streamReports (st : EngineState) (config : EngineConfig) (bytes : Bytes) :
    List ReceiveReport :=
  match st.handleEvents config ((wireScanner maxIngressBytes config.integrity).scan
      (st.ingress.rest ++ bytes)).1 with
  | some handled => handled.2
  | none => []

/-- A receive returns the last report. -/
theorem kind_receiveBytes {bytes : Bytes} (h : (st.receiveBytes config bytes).2.isError = false) :
    (st.receiveBytes config bytes).2.kind =
      ((st.streamReports config bytes).getLast?.getD (.incomplete none)).kind := by
  obtain ⟨-, st', reports, -, hsome, -, -, -, hkind⟩ := receiveBytes_ok h
  rw [hkind, streamReports, hsome]

/-- The items of a stream are those of its parts. -/
theorem streamReports_append {a b : Bytes}
    (h : (st.receiveBytes config (a ++ b)).2.isError = false) :
    st.streamReports config (a ++ b) = st.streamReports config a ++
      (st.receiveBytes config a).1.streamReports config b := by
  obtain ⟨-, st', reports, -, hsome, -⟩ := receiveBytes_ok h
  obtain ⟨ha, -, -⟩ := receiveBytes_append h
  obtain ⟨-, st₁, reports₁, ingress, hsome₁, hbytes, hpend, hstate, -⟩ := receiveBytes_ok ha
  have hrest : (st₁.withIngress ingress).ingress.rest =
      ((wireScanner maxIngressBytes config.integrity).scan (st.ingress.rest ++ a)).2 := by
    rw [← hbytes]
    exact StreamingDecoder.rest_of_no_pending hpend
  unfold streamReports
  rw [hsome, hsome₁, hstate, hrest, handleEvents_withIngress]
  rw [← List.append_assoc, Scanner.scan_append, handleEvents_append, hsome₁, Option.bind_some]
    at hsome
  obtain ⟨⟨st₂, reports₂⟩, hsome₂, heq⟩ := Option.map_eq_some_iff.mp hsome
  obtain ⟨-, rfl⟩ := Prod.mk.inj heq
  rw [hsome₂]
  rfl

end EngineState

/-! ## The connection state -/

namespace ReceiveReport

theorem isPeerTraffic_of_kind {r r' : ReceiveReport} (h : r.kind = r'.kind) :
    r.isPeerTraffic = r'.isPeerTraffic := by
  cases r <;> cases r' <;> simp_all [kind, isPeerTraffic]

theorem eq_pong_of_kind {r r' : ReceiveReport} (h : r.kind = r'.kind) :
    r = .pong ↔ r' = .pong := by
  cases r <;> cases r' <;> simp_all [kind]

end ReceiveReport

/-- What an endpoint knows about its peer. -/
@[ext] structure Connection where
  state : PeerState
  lastSeenMs : Nat
  pendingPing : Bool
  deriving DecidableEq

namespace Connection

/-- The connection state once a receive has reported. -/
def note (c : Connection) (nowMs : Nat) (report : ReceiveReport) : Connection where
  state := if report.isPeerTraffic then .connected else c.state
  lastSeenMs := if report.isPeerTraffic then nowMs else c.lastSeenMs
  pendingPing := if report = .pong then false else c.pendingPing

theorem note_of_kind {c : Connection} {nowMs : Nat} {r r' : ReceiveReport} (h : r.kind = r'.kind) :
    c.note nowMs r = c.note nowMs r' := by
  simp only [note, ReceiveReport.isPeerTraffic_of_kind h, ReceiveReport.eq_pong_of_kind h]

/-- The connection state once a chunk with these reports has been received. -/
def noteLast (c : Connection) (nowMs : Nat) (reports : List ReceiveReport) : Connection :=
  c.note nowMs (reports.getLast?.getD (.incomplete none))

end Connection

namespace PeerSlot

/-- The connection record of a slot. -/
def connection (slot : PeerSlot) : Connection := ⟨slot.state, slot.lastSeenMs, slot.pendingPing⟩

/-- The reports of the items of the stream that a receive of the slot handles. -/
def streamReports (slot : PeerSlot) (bytes : Bytes) : List ReceiveReport :=
  match slot.engine with
  | none => []
  | some engine => engine.state.streamReports engine.config bytes

/-- **The slot learns what the last report of a chunk says.** -/
theorem receive_connection {slot : PeerSlot} {engine : Engine} (hengine : slot.engine = some engine)
    (nowMs : Nat) {bytes : Bytes} (hok : (slot.receive nowMs bytes).2.isError = false) :
    (engine.receive bytes).2.isError = false ∧
      (slot.receive nowMs bytes).1.engine = some (engine.receive bytes).1 ∧
      (slot.receive nowMs bytes).1.connection =
        slot.connection.noteLast nowMs (slot.streamReports bytes) := by
  have hreports : slot.streamReports bytes = engine.state.streamReports engine.config bytes := by
    simp only [streamReports, hengine]
  simp only [receive, hengine] at hok ⊢
  cases herr : (engine.receive bytes).2.isError with
  | true =>
    rw [if_pos herr, herr] at hok
    cases hok
  | false =>
    rw [if_neg (by simp)]
    refine ⟨rfl, ?_, ?_⟩
    · unfold noteReport
      split <;> split <;> rfl
    · have hkind : (engine.receive bytes).2.kind = _ := kind_receiveBytes herr
      rw [hreports, Connection.noteLast, ← Connection.note_of_kind hkind]
      unfold noteReport
      cases (engine.receive bytes).2 <;> rfl

section Cut
variable {slot : PeerSlot} {engine : Engine}

theorem receive_report (hengine : slot.engine = some engine) (nowMs : Nat) (bytes : Bytes) :
    (slot.receive nowMs bytes).2 = (engine.receive bytes).2 := by
  simp only [receive, hengine]
  split <;> rfl

variable (slot) in
theorem streamReports_cut (hengine : slot.engine = some engine) {a b : Bytes}
    (hok : (engine.receive (a ++ b)).2.isError = false) :
    slot.streamReports (a ++ b) =
      slot.streamReports a ++ (engine.receive a).1.state.streamReports engine.config b := by
  simp only [streamReports, hengine]
  exact streamReports_append hok

variable (slot) in
/-- The two receives of a cut, one after the other. -/
theorem connection_cut (hengine : slot.engine = some engine) (nowMs : Nat) {a b : Bytes}
    (hok : (engine.receive (a ++ b)).2.isError = false) :
    ((slot.receive nowMs a).1.receive nowMs b).1.connection =
      (slot.connection.noteLast nowMs (slot.streamReports a)).noteLast nowMs
        ((engine.receive a).1.state.streamReports engine.config b) := by
  have hparts : (engine.receive a).2.isError = false ∧
      ((engine.receive a).1.receive b).2.isError = false := by
    obtain ⟨ha, hb, -⟩ := EngineState.receiveBytes_append hok
    exact ⟨ha, hb⟩
  obtain ⟨-, hengine₁, hfirst⟩ := receive_connection hengine nowMs
    (by rw [receive_report hengine]; exact hparts.1)
  obtain ⟨-, -, hsecond⟩ := receive_connection hengine₁ nowMs
    (by rw [receive_report hengine₁]; exact hparts.2)
  rw [hsecond, hfirst]
  simp only [streamReports, hengine₁]
  rfl

end Cut

end PeerSlot

/-! ## Accounting for a chunk -/

/-- The connection state accounts for every packet of a chunk: it does not depend on a cut, and it
shows every accepted packet and every PONG. -/
structure Accounts (slot : PeerSlot) (nowMs : Nat) (a b : Bytes) : Prop where
  cut : (slot.receive nowMs (a ++ b)).1.connection =
    ((slot.receive nowMs a).1.receive nowMs b).1.connection
  seen : (∃ r ∈ slot.streamReports (a ++ b), r.isPeerTraffic = true) →
    (slot.receive nowMs (a ++ b)).1.state = .connected ∧
      (slot.receive nowMs (a ++ b)).1.lastSeenMs = nowMs
  pong : .pong ∈ slot.streamReports (a ++ b) →
    (slot.receive nowMs (a ++ b)).1.pendingPing = false

/-- The last report says what the earlier ones did, unless the slot knew it before. -/
structure LastSpeaks (c : Connection) (nowMs : Nat) (reports : List ReceiveReport) : Prop where
  seen : (∃ r ∈ reports, r.isPeerTraffic = true) →
    (∃ r, reports.getLast? = some r ∧ r.isPeerTraffic = true) ∨
      (c.state = .connected ∧ c.lastSeenMs = nowMs)
  pong : .pong ∈ reports → reports.getLast? = some .pong ∨ c.pendingPing = false

section Accounts
variable {c : Connection} {nowMs : Nat}

theorem noteLast_seen_iff {reports : List ReceiveReport} :
    ((c.noteLast nowMs reports).state = .connected ∧
      (c.noteLast nowMs reports).lastSeenMs = nowMs) ↔
    (∃ r, reports.getLast? = some r ∧ r.isPeerTraffic = true) ∨
      (c.state = .connected ∧ c.lastSeenMs = nowMs) := by
  cases hlast : reports.getLast? with
  | none => simp [Connection.noteLast, Connection.note, hlast, ReceiveReport.isPeerTraffic]
  | some r =>
    cases htraffic : r.isPeerTraffic with
    | true => simp [Connection.noteLast, Connection.note, hlast, htraffic]
    | false => simp [Connection.noteLast, Connection.note, hlast, htraffic]

variable (nowMs) in
theorem noteLast_pong_iff {reports : List ReceiveReport} :
    (c.noteLast nowMs reports).pendingPing = false ↔
      reports.getLast? = some .pong ∨ c.pendingPing = false := by
  cases hlast : reports.getLast? with
  | none => simp [Connection.noteLast, Connection.note, hlast]
  | some r =>
    by_cases hpong : r = .pong
    · simp [Connection.noteLast, Connection.note, hlast, hpong]
    · simp [Connection.noteLast, Connection.note, hlast, hpong]

/-- Where the last report speaks for the others, a cut changes nothing. -/
theorem LastSpeaks.noteLast_append {first second : List ReceiveReport}
    (h : LastSpeaks c nowMs (first ++ second)) :
    c.noteLast nowMs (first ++ second) = (c.noteLast nowMs first).noteLast nowMs second := by
  cases hsecond : second.getLast? with
  | none =>
    obtain rfl := List.getLast?_eq_none_iff.mp hsecond
    rw [List.append_nil]
    simp [Connection.noteLast, Connection.note, ReceiveReport.isPeerTraffic]
  | some r =>
    have hlast : (first ++ second).getLast? = some r := by
      rw [List.getLast?_append, hsecond]
      rfl
    cases hfirst : first.getLast? with
    | none =>
      obtain rfl := List.getLast?_eq_none_iff.mp hfirst
      simp [Connection.noteLast, Connection.note, ReceiveReport.isPeerTraffic, hsecond]
    | some r₁ =>
      have hmem : r₁ ∈ first ++ second := List.mem_append_left _ (List.mem_of_getLast? hfirst)
      -- the cut lets `r₁` speak where `r` alone did before: it must not say anything new
      have hseen : r.isPeerTraffic = false → r₁.isPeerTraffic = true →
          c.state = .connected ∧ c.lastSeenMs = nowMs := by
        intro hr hr₁
        rcases h.seen ⟨r₁, hmem, hr₁⟩ with ⟨r', hr', htraffic⟩ | hknown
        · rw [hlast] at hr'
          rw [← Option.some.inj hr', hr] at htraffic
          cases htraffic
        · exact hknown
      have hpong : r ≠ .pong → r₁ = .pong → c.pendingPing = false := by
        rintro hr rfl
        refine (h.pong hmem).resolve_left fun hr' => hr ?_
        exact Option.some.inj (hlast.symm.trans hr')
      simp only [Connection.noteLast, hlast, hsecond, hfirst, Option.getD_some]
      refine Connection.ext ?_ ?_ ?_
      · by_cases hr : r.isPeerTraffic = true <;> by_cases hr₁ : r₁.isPeerTraffic = true
        all_goals simp_all [Connection.note]
      · by_cases hr : r.isPeerTraffic = true <;> by_cases hr₁ : r₁.isPeerTraffic = true
        all_goals simp_all [Connection.note]
      · by_cases hr : r = .pong <;> by_cases hr₁ : r₁ = .pong
        all_goals simp_all [Connection.note]

/-- **The connection state accounts for a chunk exactly when the last item of its stream says what
the earlier ones did.** -/
theorem connection_accounts_iff {slot : PeerSlot} (hsession : slot.hasSession = true) (nowMs : Nat)
    {a b : Bytes} (hok : (slot.receive nowMs (a ++ b)).2.isError = false) :
    Accounts slot nowMs a b ↔ LastSpeaks slot.connection nowMs (slot.streamReports (a ++ b)) := by
  obtain ⟨engine, hengine⟩ := Option.isSome_iff_exists.mp hsession
  obtain ⟨hwhole, -, hconnection⟩ := PeerSlot.receive_connection hengine nowMs hok
  have hstate : (slot.receive nowMs (a ++ b)).1.state = _ := congrArg Connection.state hconnection
  have hseen : (slot.receive nowMs (a ++ b)).1.lastSeenMs = _ :=
    congrArg Connection.lastSeenMs hconnection
  have hpending : (slot.receive nowMs (a ++ b)).1.pendingPing = _ :=
    congrArg Connection.pendingPing hconnection
  constructor
  · intro h
    refine ⟨fun hr => noteLast_seen_iff.mp ?_, fun hr => (noteLast_pong_iff nowMs).mp ?_⟩
    · rw [← hstate, ← hseen]
      exact h.seen hr
    · rw [← hpending]
      exact h.pong hr
  · intro h
    refine ⟨?_, ?_, ?_⟩
    · rw [hconnection, slot.connection_cut hengine nowMs hwhole, slot.streamReports_cut hengine hwhole]
      rw [slot.streamReports_cut hengine hwhole] at h
      exact h.noteLast_append
    · intro hr
      rw [hstate, hseen]
      exact noteLast_seen_iff.mpr (h.seen hr)
    · intro hr
      rw [hpending]
      exact (noteLast_pong_iff nowMs).mpr (h.pong hr)

/-- A PING on a fresh passive session, cut in the middle. -/
theorem connection_accounts_ping : Accounts ((PeerSlot.new .default).acceptPassive 0) 10
    ((envelope EngineConfig.default.integrity [PacketType.ping.code]).take 2)
    ((envelope EngineConfig.default.integrity [PacketType.ping.code]).drop 2) := by
  refine (connection_accounts_iff rfl 10 (by decide +kernel)).mpr ⟨fun _ => .inl ?_, fun _ => .inr rfl⟩
  exact ⟨.ping, by decide +kernel, rfl⟩

/-- A byte of noise behind a PING hides it from the slot. -/
theorem not_connection_accounts : ¬ ∀ (slot : PeerSlot) (nowMs : Nat) (a b : Bytes),
    slot.hasSession = true → (slot.receive nowMs (a ++ b)).2.isError = false →
    (slot.receive nowMs a).2.isError = false →
    ((slot.receive nowMs a).1.receive nowMs b).2.isError = false → Accounts slot nowMs a b := by
  intro h
  have hcut := (h ((PeerSlot.new .default).acceptPassive 0) 10
    (envelope EngineConfig.default.integrity [PacketType.ping.code]) [0] rfl (by decide +kernel)
    (by decide +kernel) (by decide +kernel)).cut
  revert hcut
  decide +kernel

end Accounts

end Msrt
