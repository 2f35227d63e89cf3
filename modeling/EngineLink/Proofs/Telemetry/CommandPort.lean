import EngineLink.Program.Sampler
import EngineLink.Proofs.Network.Dialling

/-!
# The command port zero

A link is told to have no command channel by having no port for one. The port zero is a port like
any other: it is dialled, by the whole policy and in front of the telemetry stream, and what comes
of it is the command channel. Only the telemetry command takes zero for no port. Read `Dial.Makes`
first; `Link.connect_of_port_zero` is the result.
-/

namespace EngineLink

namespace Dial

variable {σ Connection : Type}

/-! ## Computations one after another -/

section

variable {α β : Type} {plain : StateM σ α} {kept : StateM (σ × List (Exchange Connection)) α}
  {s : σ}

/-- A value makes no call. -/
theorem Makes.pure (value : α) (s : σ) :
    Makes (pure value) (pure value) s value s ([] : List (Exchange Connection)) where
  plain := rfl
  kept record := by
    rw [List.append_nil]
    rfl

/-- What is computed from a value makes its calls behind those that were made for the value. -/
theorem Makes.bind {value : α} {after last : σ} {made later : List (Exchange Connection)}
    {next : α → StateM σ β} {nextKept : α → StateM (σ × List (Exchange Connection)) β} {result : β}
    (hfirst : Makes plain kept s value after made)
    (hnext : Makes (next value) (nextKept value) after result last later) :
    Makes (plain >>= next) (kept >>= nextKept) s result last (made ++ later) where
  plain := by
    simp only [Bind.bind, StateT.bind, hfirst.plain]
    exact hnext.plain
  kept record := by
    simp only [Bind.bind, StateT.bind, hfirst.kept]
    rw [← List.append_assoc]
    exact hnext.kept (record ++ made)

/-- What is made of a value makes no call. -/
theorem Makes.bind_pure {value : α} {after : σ} {made : List (Exchange Connection)}
    (h : Makes plain kept s value after made) (f : α → β) :
    Makes (plain >>= fun value => Pure.pure (f value)) (kept >>= fun value => Pure.pure (f value)) s
      (f value) after made := by
  rw [← List.append_nil made]
  exact h.bind (.pure (f value) after)

end

/-- The first call of a run resolves the host. -/
theorem Story.exchanges_cons (t : Target) (run : Story Connection) :
    ∃ answer rest, run.exchanges t = .resolve t.host t.port answer :: rest := by
  obtain ⟨repeated, ending⟩ := run
  cases repeated with
  | cons refusals rest => exact ⟨_, _, rfl⟩
  | nil =>
      cases ending with
      | unresolved | noAddress | connected | refused => exact ⟨_, _, rfl⟩

/-- Dialling makes calls, and the first of them resolves the host. -/
theorem dial_makes (net : Network (StateM σ) Connection) (t : Target) (s : σ) :
    ∃ outcome after made, Makes (dial net t) (dial net.recorded t) s outcome after made ∧
      ∃ answer rest, made = .resolve t.host t.port answer :: rest := by
  obtain ⟨outcome, after, run, hmakes, -⟩ :=
    attempt_from_makes net t none 1 (t.policy.totalAttempts - 1) s
  exact ⟨outcome, after, _, hmakes, run.exchanges_cons t⟩

end Dial

namespace Telemetry.Link

open Dial

variable {Connection : Type}

/-! ## What a link makes of its dials -/

/-- The command channel that dialling for it gave, and what is told of it. -/
def channelOf (o : Outcome Connection) : Option Connection × List LinkNotice :=
  match o.result with
  | .ok connection => (some connection, o.steps.map .dial ++ [.commandConnected])
  | .error e => (none, o.steps.map .dial ++ [.commandUnavailable e])

/-- The link that dialling for the telemetry stream gave. -/
def openedOf (a : Starting) (c : LinkConfig) (channel : Option Connection × List LinkNotice)
    (o : Outcome Connection) : Opened Connection :=
  match o.result with
  | .ok telemetry =>
      ⟨startReader a ⟨c, telemetry, channel.1⟩,
        channel.2 ++ o.steps.map .dial ++ [.telemetryConnected]⟩
  | .error e =>
      ⟨.error (.transport e), channel.2 ++ o.steps.map .dial ++ [.telemetryFailed e]⟩

section

variable {m : Type → Type} [Monad m] (net : Network m Connection) {c : LinkConfig}

/-- With a port for commands the command channel is dialled. -/
theorem connect_command_of_port {port : Nat} (h : c.commandPort = some port) :
    connectCommand net c =
      dial net (c.commandTarget port) >>= fun o => pure (channelOf o) := by
  rw [connectCommand, h]
  refine bind_congr fun o => ?_
  obtain ⟨result, steps⟩ := o
  cases result with
  | ok connection => rfl
  | error e => rfl

/-- A link is made of what dialling for its channel and for its stream gave. -/
theorem connect_eq (a : Starting) (c : LinkConfig) :
    connect net a c = connectCommand net c >>= fun channel =>
      dial net c.telemetryTarget >>= fun o => pure (openedOf a c channel o) := by
  rw [connect]
  refine bind_congr fun channel => bind_congr fun o => ?_
  obtain ⟨result, steps⟩ := o
  cases result with
  | ok telemetry => rfl
  | error e => rfl

end

section

variable {σ : Type} {net : Network (StateM σ) Connection} {a : Starting} {c : LinkConfig}
  {s after last : σ} {made later : List (Exchange Connection)} {o : Outcome Connection}

/-- Without a port for commands only the telemetry stream is dialled. -/
theorem connect_makes_of_no_port (hport : c.commandPort = none)
    (hmakes : Makes (dial net c.telemetryTarget) (dial net.recorded c.telemetryTarget) s o after
      made) :
    Makes (connect net a c) (connect net.recorded a c) s (openedOf a c (none, []) o) after
      made := by
  have hchannel : Makes (connectCommand net c) (connectCommand net.recorded c) s (none, []) s
      [] := by
    rw [connectCommand, connectCommand, hport]
    exact .pure _ s
  rw [connect_eq, connect_eq]
  exact hchannel.bind (hmakes.bind_pure (openedOf a c (none, [])))

/-- With a port for commands it is dialled first. -/
theorem connect_makes_of_port {port : Nat} {command : Outcome Connection}
    (hport : c.commandPort = some port)
    (hcommand : Makes (dial net (c.commandTarget port)) (dial net.recorded (c.commandTarget port))
      s command after made)
    (hmakes : Makes (dial net c.telemetryTarget) (dial net.recorded c.telemetryTarget) after o last
      later) :
    Makes (connect net a c) (connect net.recorded a c) s (openedOf a c (channelOf command) o) last
      (made ++ later) := by
  have hchannel : Makes (connectCommand net c) (connectCommand net.recorded c) s
      (channelOf command) after made := by
    rw [connect_command_of_port net hport, connect_command_of_port net.recorded hport]
    exact hcommand.bind_pure channelOf
  rw [connect_eq, connect_eq]
  exact hchannel.bind (hmakes.bind_pure (openedOf a c (channelOf command)))

end

/-- A link has the command channel that dialling for it gave. -/
theorem channel_of_fst (o : Outcome Connection) : (channelOf o).1 = o.result.toOption := by
  obtain ⟨result, steps⟩ := o
  cases result with
  | ok connection => rfl
  | error e => rfl

/-- The command channel decides nothing but the channel of the link. -/
theorem opened_of_result (a : Starting) (c c' : LinkConfig)
    (channel : Option Connection × List LinkNotice) (o : Outcome Connection) :
    (openedOf a c' channel o).result = (openedOf a c (none, []) o).result.map fun link =>
      ⟨c', link.telemetry, channel.1⟩ := by
  obtain ⟨result, steps⟩ := o
  cases result with
  | ok telemetry =>
      dsimp only [openedOf, startReader]
      cases a.failure? with
      | none => rfl
      | some e => rfl
  | error e => rfl

/-- On a link whose command port is zero the port is dialled, with the whole policy, and then all
that is dialled without a command port. The link has the command channel that the port gave. So the
calls are never those of a link without a command port. The telemetry command alone takes zero for
no port. -/
theorem connect_of_port_zero {σ : Type} (net : Network (StateM σ) Connection) (a : Starting)
    (host : String) (port : Nat) (retry : RetryPolicy) (s : σ) :
    let c := (LinkConfig.ofHost host port).withRetry retry
    let absent := connect net.recorded a c (s, [])
    let zero := connect net.recorded a (c.withCommandPort 0) (s, [])
    let dialled := dial net.recorded (c.commandTarget 0) (s, [])
    let later := connect net.recorded a c (dialled.2.1, [])
    (connect net a c s = (absent.1, absent.2.1) ∧
        connect net a (c.withCommandPort 0) s = (zero.1, zero.2.1)) ∧
      (∃ answer rest, dialled.2.2 = .resolve host 0 answer :: rest) ∧
      zero.2 = (later.2.1, dialled.2.2 ++ later.2.2) ∧
      (zero.1.result = later.1.result.map fun link =>
        ⟨c.withCommandPort 0, link.telemetry, dialled.1.result.toOption⟩) ∧
      zero.2.2.map Exchange.step ≠ absent.2.2.map Exchange.step ∧
      ∀ r : TelemetryRequest, Sampler.settings { r with commandPort := some 0 } =
        Sampler.settings { r with commandPort := none } := by
  intro c absent zero dialled later
  obtain ⟨command, between, tried, hcommand, answer, rest, hfirst⟩ :=
    dial_makes net (c.commandTarget 0) s
  obtain ⟨o, last, made, hmade, final, more, hmore⟩ := dial_makes net c.telemetryTarget between
  obtain ⟨direct, after, alone, halone, reply, others, hothers⟩ :=
    dial_makes net c.telemetryTarget s
  have habsent := connect_makes_of_no_port (a := a) (c := c) rfl halone
  have hlater := connect_makes_of_no_port (a := a) (c := c) rfl hmade
  have hzero := connect_makes_of_port (a := a) (c := c.withCommandPort 0) rfl hcommand hmade
  have hdialled : dialled = (command, between, tried) := hcommand.kept []
  have hlast : later = (openedOf a c (none, []) o, last, made) := by
    show connect net.recorded a c (dialled.2.1, []) = _
    rw [hdialled]
    exact hlater.kept []
  have hkept : zero =
      (openedOf a (c.withCommandPort 0) (channelOf command) o, last, tried ++ made) :=
    hzero.kept []
  have hnone : absent = (openedOf a c (none, []) direct, after, alone) := habsent.kept []
  rw [hkept, hnone, hlast, hdialled]
  refine ⟨⟨habsent.plain, hzero.plain⟩, ⟨answer, rest, hfirst⟩, rfl, ?_, ?_, fun r => rfl⟩
  · rw [← channel_of_fst]
    exact opened_of_result a c _ _ o
  · intro hsame
    change (tried ++ made).map Exchange.step = alone.map Exchange.step at hsame
    by_cases hport : port = 0
    · -- the port is dialled once on the one link and twice on the other
      subst hport
      have honce : alone = tried :=
        congrArg (fun run => run.2.2) ((halone.kept []).symm.trans (hcommand.kept []))
      have hlengths := congrArg List.length hsame
      rw [honce, hmore, List.length_map, List.length_map, List.length_append,
        List.length_cons] at hlengths
      omega
    · rw [hfirst, hothers] at hsame
      have hheads := (List.cons.inj hsame).1
      exact hport (Step.resolve.inj hheads).2.symm

/-- A network on which every host has one address, which connects. -/
def friendly : Network (StateM Unit) Unit where
  resolve _ _ := pure (.ok ["127.0.0.1"])
  connect _ := pure (.ok ())
  sleep _ := pure ()

/-- A link whose command port is zero has a command channel, and makes calls for it. -/
theorem command_channel_of_port_zero :
    let c := LinkConfig.ofHost "engine" 4242
    let absent := connect friendly.recorded .usual c ((), [])
    let zero := connect friendly.recorded .usual (c.withCommandPort 0) ((), [])
    zero.2.2.map Exchange.step = [.resolve "engine" 0, .connect "127.0.0.1",
        .resolve "engine" 4242, .connect "127.0.0.1"] ∧
      absent.2.2.map Exchange.step = [.resolve "engine" 4242, .connect "127.0.0.1"] ∧
      (zero.1.result.toOption.map fun link => link.command) = some (some ()) ∧
      (absent.1.result.toOption.map fun link => link.command) = some none := by
  decide +kernel

end Telemetry.Link

end EngineLink
