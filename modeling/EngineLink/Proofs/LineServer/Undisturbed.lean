import EngineLink.Proofs.LineServer.Delivery

/-!
# Sessions in which no read fails by itself

A read can only fail for a signal, or at a reset behind the last byte of a connection. Then no byte
is lost: a connection contributes the messages of all bytes that were read from it. Read
`Chance.Undisturbed` first, then `Session.Whole` and `Session.contributed_of_whole`.
-/

namespace EngineLink

/-- No read fails by itself, unless a signal makes it fail. -/
def Chance.Undisturbed (k : Chance) : Prop :=
  ∀ c e, k.read c = .error e → e.isInterrupted = true

/-- Every call succeeds, and a read brings all that there is room for. -/
def Chance.smooth : Chance :=
  ⟨none, fun _ => true, none, fun _ => .ok lineCapacity⟩

/-- In a smooth poll no read fails. -/
theorem Chance.undisturbed_smooth : smooth.Undisturbed := by
  intro c e h
  cases h

/-- What a wait reports ready was found ready. -/
theorem LineServer.reported_of_mem_ready {s : LineServer} {found : Watched → Bool}
    {i : Fin maxClients} {c : Connection} (h : (i, c) ∈ s.readyClients ⟨s.watched.map found⟩) :
    found (.client c) = true := by
  obtain ⟨place, hwatched, hready⟩ := place_of_ready h
  simpa [Readiness.isReady, hwatched] using hready

/-- A read of a connection that is ready brings bytes, or finds its end, or fails at a reset
behind the last byte. -/
theorem Inflow.read_cases {f : Inflow} (h : f.report.isReady = true) (room : Nat) :
    (∃ bytes, (f.read room).1 = .ok bytes) ∨
      (f.read room).2.unread = [] ∧ (f.read room).2.ending ≠ .unended := by
  unfold read
  split
  · exact .inl ⟨_, rfl⟩
  · next hempty =>
      have hempty : f.unread = [] := by simpa using hempty
      split
      · next hunended => simp [report, Report.isReady, hempty, hunended] at h
      · exact .inl ⟨_, rfl⟩
      · exact .inr ⟨hempty, by simp⟩

/-- A read leaves a connection that has ended ended. -/
theorem Inflow.read_ending {f : Inflow} (h : f.ending ≠ .unended) (room : Nat) :
    (f.read room).2.ending ≠ .unended := by
  unfold read
  split
  · exact h
  · split
    · next hunended => exact absurd hunended h
    · exact h
    · simp

/-- A reading fails only behind the last byte, and a connection that has ended stays so. -/
theorem Chance.Undisturbed.reading {k : Chance} (hk : k.Undisturbed) {w : Loopback}
    {c : Connection} (hready : (w.flow c).report.isReady = true) (s : LineServer) :
    ((k.reading w s c).1.breaks = true →
        (k.reading w s c).2.ending ≠ .unended ∧ (k.reading w s c).2.unread = []) ∧
      ((w.flow c).ending ≠ .unended → (k.reading w s c).2.ending ≠ .unended) := by
  unfold Chance.reading
  split
  · next e he =>
      refine ⟨fun hbreaks => ?_, fun hended => hended⟩
      simp [Reading.breaks, hk c e he] at hbreaks
  · next n _ =>
      refine ⟨fun hbreaks => ?_, fun hended => Inflow.read_ending hended _⟩
      rcases Inflow.read_cases hready (min (n + 1) (s.roomFor c)) with ⟨bytes, hbytes⟩ |
        ⟨hunread, hended⟩
      · rw [hbytes] at hbreaks
        cases hbreaks
      · exact ⟨hended, hunread⟩

/-! ## Readings that did not fail -/

/-- Readings of which none failed leave what their bytes leave. -/
theorem take_readings_of_unbroken {rs : List Reading} (h : ∀ r ∈ rs, ¬r.breaks = true)
    (held : List UInt8) : (takeReadings held rs).1 = (takeBytes held (bytesRead rs)).1 := by
  induction rs generalizing held with
  | nil => rfl
  | cons r rest ih =>
      have hrest := ih fun r hr => h r (List.mem_cons_of_mem _ hr)
      have hfirst := h r List.mem_cons_self
      match r with
      | .ok bytes =>
          show (takeReadings (takeBytes held bytes).1 rest).1 =
            (takeBytes held (bytes ++ bytesRead rest)).1
          rw [hrest, take_bytes_append]
      | .error e =>
          have hsignal : e.isInterrupted = true := by simpa [Reading.breaks] using hfirst
          show (takeReadings (if e.isInterrupted then held else []) rest).1 = _
          rw [if_pos hsignal, hrest]
          rfl

/-- A reading completes the messages in its bytes. -/
theorem messages_take_reading (held : List UInt8) (r : Reading) :
    (takeReading held r).2 = messagesBehind held r.bytes := by
  match r with
  | .ok bytes => rfl
  | .error e => rfl

namespace Session

variable {x : Session} {k : Chance}

/-- What holds of the readings of every connection if no read fails by itself. -/
structure Whole (x : Session) : Prop where
  /-- The readings complete the messages of all their bytes. -/
  messages : ∀ c, (takeReadings [] (x.reads c)).2 = messagesBehind [] (bytesRead (x.reads c))
  /-- A read has failed only behind the last byte. -/
  broken : ∀ c, (∃ r ∈ x.reads c, r.breaks = true) →
    (x.network.flow c).ending ≠ .unended ∧ (x.network.flow c).unread = []

/-- Before any reading no message is lost to a failure. -/
theorem whole_start : start.Whole where
  messages _ := rfl
  broken := by
    rintro c ⟨r, hr, _⟩
    cases hr

/-- A client that connects changes no reading. -/
theorem whole_connect (h : x.Whole) : x.connect.Whole where
  messages := h.messages
  broken := by
    intro c hbroken
    simp only [connect, Loopback.flow_connect]
    exact h.broken c hbroken

/-- Behind the end of a connection nothing is sent. -/
theorem whole_send (h : x.Whole) (c : Connection) (bytes : List UInt8) :
    (x.send c bytes).Whole where
  messages := h.messages
  broken := by
    intro d hbroken
    obtain ⟨hended, hunread⟩ := h.broken d hbroken
    simp only [send, Loopback.flow_modify]
    split
    · next heq =>
        rw [← heq.1, Inflow.send, if_neg hended]
        exact ⟨hended, hunread⟩
    · exact ⟨hended, hunread⟩

/-- A connection ends once. -/
theorem whole_finish (h : x.Whole) (c : Connection) (ending : Ending) :
    (x.finish c ending).Whole where
  messages := h.messages
  broken := by
    intro d hbroken
    obtain ⟨hended, hunread⟩ := h.broken d hbroken
    simp only [finish, Loopback.flow_modify]
    split
    · next heq =>
        rw [← heq.1, Inflow.finish, if_neg hended]
        exact ⟨hended, hunread⟩
    · exact ⟨hended, hunread⟩

/-- A client that a poll serves has something to read. -/
theorem report_of_ready {i : Fin maxClients} {c : Connection} (h : (i, c) ∈ x.ready k) :
    (x.network.flow c).report.isReady = true := by
  have hreported := LineServer.reported_of_mem_ready h
  rw [Bool.and_eq_true] at hreported
  exact hreported.2

/-- One more reading completes the messages in its bytes, since no failure lies between. -/
theorem messages_of_reading (h : x.Whole) (k : Chance) (c : Connection) :
    let r := (k.reading x.network x.server c).1
    (takeReadings [] (x.reads c ++ [r])).2 = messagesBehind [] (bytesRead (x.reads c ++ [r])) := by
  intro r
  have hone (held : List UInt8) :
      (takeReadings held [r]).2 = messagesBehind held r.bytes := by
    rw [← messages_take_reading]
    exact List.append_nil _
  have hbytes : bytesRead [r] = r.bytes := List.append_nil _
  rw [take_readings_append, hone, h.messages c, bytes_read_append, hbytes, messagesBehind,
    messagesBehind, messagesBehind, take_bytes_append, LineNotice.messages_append]
  by_cases hbroken : ∃ r ∈ x.reads c, r.breaks = true
  · -- everything was read before, so the reading brings nothing
    have hread := (k.reading_bytes x.network x.server c).1
    rw [(h.broken c hbroken).2, List.append_eq_nil_iff] at hread
    rw [show r.bytes = [] from hread.1]
    rfl
  · have hunbroken : ∀ r ∈ x.reads c, ¬r.breaks = true :=
      fun r hr hbreaks => hbroken ⟨r, hr, hbreaks⟩
    rw [take_readings_of_unbroken hunbroken]

/-- A poll in which no read fails by itself reads on where the readings stopped. -/
theorem whole_poll (hsound : x.Sound) (h : x.Whole) (hk : k.Undisturbed) : (x.poll k).Whole := by
  cases hwait : k.wait with
  | some e =>
      rw [poll_of_wait_failure hwait]
      exact h
  | none =>
      constructor
      · intro c
        rcases read_poll hsound hwait c with ⟨hreads, _, _⟩ | ⟨_, hreads, _, _⟩
        · rw [hreads]
          exact h.messages c
        · rw [hreads]
          exact messages_of_reading h k c
      · intro c hbroken
        rcases read_poll hsound hwait c with ⟨hreads, hunread, hending⟩ |
          ⟨⟨i, hready⟩, hreads, hunread, hending⟩
        · rw [hreads] at hbroken
          rw [hunread, hending]
          exact h.broken c hbroken
        · obtain ⟨hfails, hends⟩ := hk.reading (report_of_ready hready) x.server
          obtain ⟨r, hr, hbreaks⟩ := hbroken
          rw [hreads, List.mem_append, List.mem_singleton] at hr
          rw [hunread, hending]
          rcases hr with hr | rfl
          · -- an earlier read failed, so there was nothing left to read
            obtain ⟨hended, hempty⟩ := h.broken c ⟨r, hr, hbreaks⟩
            have hbytes := (k.reading_bytes x.network x.server c).1
            rw [hempty, List.append_eq_nil_iff] at hbytes
            exact ⟨hends hended, hbytes.2⟩
          · exact hfails hbreaks

/-- If no read failed by itself, a connection whose bytes were all read contributed the messages
in what was sent on it. -/
theorem contributed_of_whole (hsound : x.Sound) (h : x.Whole) {c : Connection}
    (hread : (x.network.flow c).unread = []) :
    x.contributed c = messagesBehind [] (x.sent c) := by
  rw [hsound.contributed c, h.messages c, ← hsound.sent c, hread, List.append_nil]

end Session

end EngineLink
