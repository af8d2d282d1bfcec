import Parkour.Engine.Session
import Parkour.Proofs.Engine.Journal

/-!
# Validity over sessions

An engine serves one request after the other. Whatever it is asked, and whether it
succeeds or fails, every player that it goes through is valid.
-/

namespace Parkour

open Parkour.Language

/-- What a caller asks of an engine. -/
structure Request where
  /-- The sequence to run. -/
  text : String
  /-- A run that printed nothing ends with readouts. -/
  closing : Bool
  /-- A fault is given back as such. -/
  strict : Bool
  /-- The variables that the caller lends. -/
  scope : Scope
  /-- The run has been cancelled. -/
  cancelled : Bool := false

namespace Engine

open Player (Axis)
open Report (Sink)

/-- Serves a request. -/
def serve (e : Engine) (r : Request) : Answer :=
  { e with cancelled := r.cancelled }.simulate r.text r.closing r.strict r.scope

/-- The world in which a request with a journal starts. -/
def journalWorld (e : Engine) (r : Request) : World (Journal Sink) :=
  { player := e.player, scope := r.scope, functions := e.functions, audience := ⟨.empty, []⟩ }

/-- The run of a request with a journal. -/
def journal (e : Engine) (r : Request) : Except Fault (List Call) × World (Journal Sink) :=
  (journaled ⟨e.maxDepth, r.cancelled⟩ (e.maxDepth + 1)).run [] r.text (e.journalWorld r)

/-- Serves a request with a journal, and gives the players that were noted. -/
def serveNoting (e : Engine) (r : Request) : Answer × List Player :=
  ({ e with cancelled := r.cancelled }.answer r.closing r.strict (e.journal r).1
      (forgetting.world (e.journal r).2),
    (e.journal r).2.audience.players)

/-- Serves requests one after the other. -/
def session (e : Engine) : List Request → List Answer
  | [] => []
  | r :: rest => e.serve r :: (e.serve r).engine.session rest

/-- Serves requests with a journal of each. -/
def sessionNoting (e : Engine) : List Request → List (Answer × List Player)
  | [] => []
  | r :: rest => e.serveNoting r :: (e.serveNoting r).1.engine.sessionNoting rest

/-- A request is served the same with a journal. -/
theorem serveNoting_fst (e : Engine) (r : Request) : (e.serveNoting r).1 = e.serve r := by
  have hplain : runSequence ⟨e.maxDepth, r.cancelled⟩ r.text
      ({ e with cancelled := r.cancelled }.world r.scope) =
        ((e.journal r).1, forgetting.world (e.journal r).2) :=
    ((twins_journaled ⟨e.maxDepth, r.cancelled⟩ (e.maxDepth + 1)).run [] r.text).image
      (e.journalWorld r) trivial
  dsimp only [serve, simulate]
  rw [hplain]
  rfl

theorem sessionNoting_fst (e : Engine) (requests : List Request) :
    (e.sessionNoting requests).map Prod.fst = e.session requests := by
  induction requests generalizing e with
  | nil => rfl
  | cons r rest ih =>
      rw [sessionNoting, session, List.map_cons, ih, serveNoting_fst]

theorem valid_of_serveNoting {e : Engine} (h : e.player.Valid) (r : Request) :
    (e.serveNoting r).1.engine.player.Valid ∧ ∀ p ∈ (e.serveNoting r).2, p.Valid := by
  have hstart : Sound (e.journalWorld r) := ⟨h, List.forall_mem_nil _⟩
  have hafter : Sound (e.journal r).2 :=
    (sound_journaled ⟨e.maxDepth, r.cancelled⟩ (e.maxDepth + 1)).run [] r.text _ hstart
  dsimp only [serveNoting, answer, Recast.world]
  exact ⟨hafter.player, hafter.noted⟩

theorem valid_of_sessionNoting {e : Engine} (h : e.player.Valid) (requests : List Request) :
    ∀ turn ∈ e.sessionNoting requests,
      turn.1.engine.player.Valid ∧ ∀ p ∈ turn.2, p.Valid := by
  induction requests generalizing e with
  | nil => exact List.forall_mem_nil _
  | cons r rest ih =>
      have hserved := valid_of_serveNoting h r
      exact List.forall_mem_cons.mpr ⟨hserved, ih hserved.1⟩

/-- Settings that are accepted make a valid player. -/
theorem valid_of_settings {settings : Settings} {axis : Axis} {p : Player}
    (h : settings.player axis = .ok p) : p.Valid := by
  obtain ⟨precise, hprecision, h⟩ := bind_eq_ok (ofRefusal_eq_ok h)
  obtain ⟨grounded, hslip, hinertia⟩ := bind_eq_ok h
  have hprecise := (Player.Setting.precision hprecision).valid (Player.valid_new axis)
  have hgrounded := (Player.Setting.slip hslip).valid hprecise
  exact (Player.Setting.inertia hinertia).valid hgrounded

theorem valid_of_ofSettings {axis : Axis} {settings : Settings} {e : Engine}
    (h : ofSettings axis settings = .ok e) : e.player.Valid := by
  obtain ⟨p, hp, he⟩ := bind_eq_ok h
  cases he
  exact valid_of_settings hp

/-- All players that an engine goes through are valid, if its settings were accepted:
those after each tick, each call and each fault, and those of trials. -/
theorem session_valid (axis : Axis) (settings : Settings) (e : Engine)
    (h : ofSettings axis settings = .ok e) (requests : List Request) :
    e.player.Valid ∧ (e.sessionNoting requests).map Prod.fst = e.session requests ∧
      ∀ turn ∈ e.sessionNoting requests,
        turn.1.engine.player.Valid ∧ ∀ p ∈ turn.2, p.Valid := by
  have hstart := valid_of_ofSettings h
  exact ⟨hstart, e.sessionNoting_fst requests, valid_of_sessionNoting hstart requests⟩

/-- A player jumps under a ceiling, and a call fails. -/
theorem session_valid_jumps :
    ∃ e, ofSettings .vertical {} = .ok e ∧
      ∀ turn ∈ e.sessionNoting [⟨"ceiling(2) jump(4) vy(-1)", true, true, ∅, false⟩,
          ⟨"repeat(jump(2), 2) ceiling(1)", false, false, ∅, false⟩],
        turn.1.engine.player.Valid ∧ ∀ p ∈ turn.2, p.Valid := by
  refine ⟨_, rfl, (session_valid .vertical {} _ rfl _).2.2⟩

end Engine

end Parkour
