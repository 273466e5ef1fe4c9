import Song.Runtime.Returns

/-!
# What a connection leaves behind

`client_loop` releases the connection's objects and drops its subscriptions on
each of its return paths, and on no other way out. So the clean-up is complete
exactly when no exception leaves the loop, or one leaves it while nothing is
tracked and nothing subscribed.
-/

namespace Song

variable {σ ω α β : Type} {env : Env σ ω} {s : Rt σ ω}

/-! ## Only the clean-up writes `cleanedUp` -/

/-- The run leaves `cleanedUp` as it is. -/
abbrev KeepsCleanedUp (x : Srv σ ω α) : Prop :=
  Eff.Within (fun s s' => s'.cleanedUp = s.cleanedUp) x

namespace KeepsCleanedUp

theorem frame : IsFrame fun s s' : Rt σ ω => s'.cleanedUp = s.cleanedUp where
  aside h := by rw [h]
  trans h h' := h'.trans h

theorem update {f : Rt σ ω → Rt σ ω} (h : ∀ s, (f s).cleanedUp = s.cleanedUp) :
    KeepsCleanedUp (modify f : Srv σ ω PUnit) :=
  fun s => h s

theorem decodeThen {d : Dec β} {payload : Buffer} {k : β → Buffer → Srv σ ω α}
    (hk : ∀ b rest, KeepsCleanedUp (k b rest)) : KeepsCleanedUp (decodeThen d payload k) :=
  within_decodeThen frame.refl hk

theorem handleObject (seq : UInt32) (port : Port) (code : ErrorCode) (objectId : Int32)
    (f : ω × σ → Ran (ω × σ) Note Bytes) :
    KeepsCleanedUp (handleObject env seq port code objectId f) :=
  frame.handleObject (fun _ _ _ => rfl) seq port code

theorem handleMessage (hdr : Header) (payload : Buffer) (tp : TransportPtr) :
    KeepsCleanedUp (handleMessage env hdr payload tp) := by
  unfold Song.handleMessage
  split
  · exact decodeThen fun _ _ => update fun _ => rfl
  split
  · exact decodeThen fun _ _ => update fun _ => rfl
  split
  · exact frame.within (Aside.handleCall hdr payload _)
  split
  · exact decodeThen fun _ _ => frame.tryReport
      (frame.createBody (fun _ _ _ => rfl) (fun _ _ => rfl) _ _ _ _)
  split
  · exact decodeThen fun _ _ => update fun _ => rfl
  split
  · exact decodeThen fun _ _ => handleObject _ _ _ _ _
  split
  · exact decodeThen fun _ _ => handleObject _ _ _ _ _
  split
  · exact decodeThen fun _ _ => handleObject _ _ _ _ _
  · exact Eff.Within.pure frame.refl ()

end KeepsCleanedUp

/-! ## The loop -/

/-- The loop ends the connection on this header. -/
def Header.Leaves (hdr : Header) : Prop := hdr.magic ≠ kMagic ∨ hdr.type = .shutdown

variable (env) in
/-- A message that `client_loop` takes without an exception: a whole header, and unless the
loop leaves or skips on it, a whole payload header and handlers whose failures are reported. -/
def StepOk (tp : TransportPtr) (msg : Bytes) (s : Rt σ ω) : Prop :=
  ∃ f : Frame, msg = f.bytes ∧
    (f.hdr.Leaves ∨ f.hdr.type = .initAck ∨
      payloadHeaderSize f.hdr.type ≤ f.payload.length ∧
        HandlersOk env f.hdr (.cut (encodeHeader f.hdr) f.payload) (.transport tp) s)

variable (env) in
/-- `receive` does not throw and every message up to the one the loop leaves on is
`StepOk` in the state it meets. -/
def RunOk (tp : TransportPtr) (last : Option Exn) : List Bytes → Rt σ ω → Prop
  | [], _ => last = none
  | msg :: msgs, s => StepOk env tp msg s ∧
      ∀ s', (clientStep env msg tp).run s = .ok .stay s' → RunOk tp last msgs s'

variable (env) in
/-- The state the loop is left in, before the clean-up of the path it is left on. -/
def loopExit (tp : TransportPtr) : List Bytes → Rt σ ω → Rt σ ω
  | [], s => s
  | msg :: msgs, s =>
    match (clientStep env msg tp).run s with
    | .ok .leave _ => s
    | .ok .stay s' => loopExit tp msgs s'
    | .error _ s' => s'

/-- What the connection owes when it ends: no subscription of it is left, and each object
tracked at its exit was released once by the clean-up. -/
def Cleaned (tp : TransportPtr) (atExit final : Rt σ ω) : Prop :=
  ¬ final.subs.Holds tp ∧ ∀ id ∈ atExit.tracked.ids, final.cleanedUp.count id = 1

/-- There is nothing to clean up. -/
def Idle (tp : TransportPtr) (s : Rt σ ω) : Prop := ¬ s.subs.Holds tp ∧ s.tracked.ids = []

/-- The state `disconnect` leaves. -/
def disconnected (tp : TransportPtr) (s : Rt σ ω) : Rt σ ω :=
  { s.releaseConnectionObjects with
    subs := s.releaseConnectionObjects.subs.unsubscribeAll tp }

theorem cleanedUp_foldl_releaseTracked (ids : List Int32) (s : Rt σ ω) :
    (ids.foldl Rt.releaseTracked s).cleanedUp = s.cleanedUp ++ ids := by
  induction ids generalizing s with
  | nil => simp
  | cons id ids ih => rw [List.foldl_cons, ih]; simp [Rt.releaseTracked]

theorem cleaned_disconnected (tp : TransportPtr) {s : Rt σ ω} (h : s.cleanedUp = []) :
    Cleaned tp s (disconnected tp s) := by
  refine ⟨SubscriptionRegistry.not_holds_unsubscribeAll _ tp, fun id hid => ?_⟩
  have hc : (disconnected tp s).cleanedUp = s.tracked.ids := by
    show (s.tracked.ids.foldl Rt.releaseTracked s).cleanedUp = _
    rw [cleanedUp_foldl_releaseTracked, h, List.nil_append]
  rw [hc]
  exact List.count_eq_one_of_mem s.tracked.nodup hid

theorem cleaned_self_iff (tp : TransportPtr) {s : Rt σ ω} (h : s.cleanedUp = []) :
    Cleaned tp s s ↔ Idle tp s := by
  refine and_congr_right fun _ => ?_
  rw [h]
  constructor
  · intro hc
    exact List.eq_nil_iff_forall_not_mem.mpr fun id hid => by simpa using hc id hid
  · intro hn id hid
    rw [hn] at hid
    cases hid

theorem clientStep_short {msg : Bytes} (h : msg.length < 16) (tp : TransportPtr) :
    (clientStep env msg tp).run s = .error underflow s := by
  obtain ⟨b, hb⟩ := Fixed.decodeHeader.short [] msg h
  simp only [EStateM.run, clientStep, decodeThen, Buffer.ofBytes_eq_cut] at hb ⊢
  rw [hb]

theorem clientStep_leaves {f : Frame} (h : f.hdr.Leaves) (tp : TransportPtr) :
    (clientStep env f.bytes tp).run s = .ok .leave (disconnected tp s) := by
  have hd := f.decodeHeader_bytes
  simp only [EStateM.run, clientStep, decodeThen] at hd ⊢
  rw [hd]
  by_cases hm : f.hdr.magic = kMagic
  · have ht : f.hdr.type = .shutdown := h.resolve_left (absurd hm)
    simp only [ne_eq, hm, not_true, ↓reduceIte, ht]
    rfl
  · simp only [ne_eq, hm, not_false_eq_true, ↓reduceIte]
    rfl

/-- A message that does not end the connection: `init_ack` is skipped, any other is
handled and the loop goes on. -/
theorem clientStep_stays {f : Frame} (h : ¬ f.hdr.Leaves) (tp : TransportPtr) :
    (clientStep env f.bytes tp).run s =
      if f.hdr.type = .initAck then .ok .stay s
      else match (handleMessage env f.hdr (.cut (encodeHeader f.hdr) f.payload) tp).run s with
        | .ok _ s' => .ok .stay s'
        | .error e s' => .error e s' := by
  have hd := f.decodeHeader_bytes
  have hm : f.hdr.magic = kMagic := by
    by_contra hm
    exact h (.inl hm)
  have ht : ¬ f.hdr.type = .shutdown := fun ht => h (.inr ht)
  simp only [EStateM.run, clientStep, decodeThen] at hd ⊢
  rw [hd]
  simp only [ne_eq, hm, not_true, ↓reduceIte, ht]
  split
  · rfl
  · cases hh : handleMessage env f.hdr (.cut (encodeHeader f.hdr) f.payload) tp s with
    | ok _ s' => exact Eff.run_bind_ok hh
    | error e s' => exact Eff.run_bind_error hh

/-- A step that ends: it leaves with the clean-up done, or stays with `cleanedUp` as it was. -/
theorem clientStep_ok {msg : Bytes} {tp : TransportPtr} {next : Next} {s' : Rt σ ω}
    (h : (clientStep env msg tp).run s = .ok next s') :
    next = .leave ∧ s' = disconnected tp s ∨ next = .stay ∧ s'.cleanedUp = s.cleanedUp := by
  rcases Nat.lt_or_ge msg.length 16 with hl | hl
  · rw [clientStep_short hl] at h
    cases h
  obtain ⟨f, rfl⟩ := exists_frame hl
  by_cases hq : f.hdr.Leaves
  · rw [clientStep_leaves hq] at h
    cases h
    exact .inl ⟨rfl, rfl⟩
  rw [clientStep_stays hq] at h
  split at h
  · cases h
    exact .inr ⟨rfl, rfl⟩
  · split at h
    · next hh =>
      cases h
      exact .inr ⟨rfl, (KeepsCleanedUp.handleMessage _ _ _).ok hh⟩
    · cases h

theorem clientStep_error {msg : Bytes} {tp : TransportPtr} {e : Exn} {s' : Rt σ ω}
    (h : (clientStep env msg tp).run s = .error e s') : s'.cleanedUp = s.cleanedUp := by
  rcases Nat.lt_or_ge msg.length 16 with hl | hl
  · rw [clientStep_short hl] at h
    cases h
    rfl
  obtain ⟨f, rfl⟩ := exists_frame hl
  by_cases hq : f.hdr.Leaves
  · rw [clientStep_leaves hq] at h
    cases h
  rw [clientStep_stays hq] at h
  split at h
  · cases h
  · split at h
    · cases h
    · next hh =>
      cases h
      exact (KeepsCleanedUp.handleMessage _ _ _).error hh

/-- `StepOk` is exact: no exception leaves the step. -/
theorem stepOk_iff_returns {msg : Bytes} {tp : TransportPtr} :
    StepOk env tp msg s ↔ Eff.Returns (clientStep env msg tp) s := by
  rcases Nat.lt_or_ge msg.length 16 with hl | hl
  · refine ⟨fun ⟨f, hf, _⟩ => ?_, fun h => ?_⟩
    · rw [hf, f.length_bytes] at hl
      omega
    · exact absurd h (Eff.Returns.not_of_error (clientStep_short hl tp))
  obtain ⟨f, rfl⟩ := exists_frame hl
  have hstep : StepOk env tp f.bytes s ↔
      f.hdr.Leaves ∨ f.hdr.type = .initAck ∨ payloadHeaderSize f.hdr.type ≤ f.payload.length ∧
        HandlersOk env f.hdr (.cut (encodeHeader f.hdr) f.payload) (.transport tp) s := by
    refine ⟨fun ⟨g, hg, h⟩ => ?_, fun h => ⟨f, rfl, h⟩⟩
    rw [Frame.bytes_inj hg]
    exact h
  rw [hstep]
  by_cases hq : f.hdr.Leaves
  · exact ⟨fun _ => .of_ok (clientStep_leaves hq tp), fun _ => .inl hq⟩
  by_cases hi : f.hdr.type = .initAck
  · have hrun : (clientStep env f.bytes tp).run s = .ok .stay s := by
      rw [clientStep_stays hq, if_pos hi]
    exact ⟨fun _ => .of_ok hrun, fun _ => .inr (.inl hi)⟩
  have hrun : Eff.Returns (clientStep env f.bytes tp) s ↔
      Eff.Returns (handleMessage env f.hdr (.cut (encodeHeader f.hdr) f.payload) tp) s := by
    unfold Eff.Returns Eff.Ends
    rw [clientStep_stays hq, if_neg hi]
    cases (handleMessage env f.hdr (.cut (encodeHeader f.hdr) f.payload) tp).run s with
    | ok _ s' => exact Iff.rfl
    | error e s' => exact Iff.rfl
  rw [hrun, returns_handleMessage]
  exact ⟨fun h => (h.resolve_left hq).resolve_left hi, fun h => .inr (.inr h)⟩

/-! ## The clean-up of a whole connection -/

theorem clientMessages_cleaned_iff (tp : TransportPtr) (last : Option Exn) (msgs : List Bytes)
    {s : Rt σ ω} (h : s.cleanedUp = []) :
    Cleaned tp (loopExit env tp msgs s) (Eff.after (clientMessages env tp last msgs) s) ↔
      RunOk env tp last msgs s ∨ Idle tp (loopExit env tp msgs s) := by
  induction msgs generalizing s with
  | nil =>
    cases last with
    | none => exact ⟨fun _ => .inl rfl, fun _ => cleaned_disconnected tp h⟩
    | some e =>
      have hn : ¬ RunOk env tp (some e) [] s := fun hr => by cases hr
      exact (cleaned_self_iff tp h).trans ⟨.inr, fun hr => hr.resolve_left hn⟩
  | cons msg msgs ih =>
    cases hs : (clientStep env msg tp).run s with
    | ok next s' =>
      have hok : StepOk env tp msg s := stepOk_iff_returns.mpr (.of_ok hs)
      rcases clientStep_ok hs with ⟨rfl, rfl⟩ | ⟨rfl, hc⟩
      · -- the loop leaves: the clean-up is done and the run stops here
        have hfin : Eff.after (clientMessages env tp last (msg :: msgs)) s = disconnected tp s :=
          Eff.after_ok (Eff.run_bind_ok hs)
        have hexit : loopExit env tp (msg :: msgs) s = s := by rw [loopExit, hs]
        rw [hfin, hexit]
        refine ⟨fun _ => .inl ⟨hok, fun s'' h' => ?_⟩, fun _ => cleaned_disconnected tp h⟩
        rw [hs] at h'
        cases h'
      · have hfin : Eff.after (clientMessages env tp last (msg :: msgs)) s =
            Eff.after (clientMessages env tp last msgs) s' := by
          unfold Eff.after
          rw [clientMessages, Eff.run_bind_ok hs]
        have hexit : loopExit env tp (msg :: msgs) s = loopExit env tp msgs s' := by
          rw [loopExit, hs]
        have hrun : RunOk env tp last (msg :: msgs) s ↔ RunOk env tp last msgs s' := by
          refine ⟨fun hr => hr.2 s' hs, fun hr => ⟨hok, fun s'' h' => ?_⟩⟩
          rw [hs] at h'
          cases h'
          exact hr
        rw [hfin, hexit, hrun]
        exact ih (hc.trans h)
    | error e s' =>
      have hfin : Eff.after (clientMessages env tp last (msg :: msgs)) s = s' :=
        Eff.after_error (Eff.run_bind_error hs)
      have hexit : loopExit env tp (msg :: msgs) s = s' := by rw [loopExit, hs]
      have hn : ¬ RunOk env tp last (msg :: msgs) s := fun hr =>
        Eff.Returns.not_of_error hs (stepOk_iff_returns.mp hr.1)
      rw [hfin, hexit, cleaned_self_iff tp ((clientStep_error hs).trans h)]
      exact ⟨.inr, fun hr => hr.resolve_left hn⟩

variable (env) in
/-- The state the loop starts in: the init message is out, the connection's sets are empty. -/
def loopStart (tp : TransportPtr) (s : Rt σ ω) : Rt σ ω :=
  { Eff.after (sendInitConfirmationTransport env tp) s with
    tracked := .empty, subscriptions := ∅, cleanedUp := [] }

theorem clientLoop_run (tp : TransportPtr) (msgs : List Bytes) (last : Option Exn) (s : Rt σ ω) :
    (clientLoop env tp msgs last).run s =
      (clientMessages env tp last msgs).run (loopStart env tp s) := by
  have hi := quietly_run (transportSend env tp (createInitMessage kFirstVersion kCurrentVersion
    (capabilities env) env.methods)) s
  have ha : Eff.after (transportSend env tp (createInitMessage kFirstVersion kCurrentVersion
      (capabilities env) env.methods)) s = Eff.after (sendInitConfirmationTransport env tp) s :=
    (Eff.after_ok hi).symm
  rw [ha] at hi
  exact Eff.run_bind_ok hi

/-- A connection is cleaned up exactly when no exception leaves its loop, or one leaves
while there is nothing to clean up. -/
theorem clientLoop_cleaned_iff (env : Env σ ω) (tp : TransportPtr) (msgs : List Bytes)
    (last : Option Exn) (s : Rt σ ω) :
    Cleaned tp (loopExit env tp msgs (loopStart env tp s))
        (Eff.after (clientLoop env tp msgs last) s) ↔
      RunOk env tp last msgs (loopStart env tp s) ∨
        Idle tp (loopExit env tp msgs (loopStart env tp s)) := by
  have hrun : Eff.after (clientLoop env tp msgs last) s =
      Eff.after (clientMessages env tp last msgs) (loopStart env tp s) := by
    unfold Eff.after
    rw [clientLoop_run]
  rw [hrun]
  exact clientMessages_cleaned_iff tp last msgs rfl

/-- A subscription, then a call frame without a payload: the decoder throws, and the
subscription of the dead connection stays. -/
theorem clientLoop_not_cleaned :
    ¬ Cleaned 7
      (loopExit bareEnv 7 [createPropertySubscribeMessage 1 (-1) 3, createMessage .call 1 []]
        (loopStart bareEnv 7 bareRt))
      (Eff.after (clientLoop bareEnv 7
        [createPropertySubscribeMessage 1 (-1) 3, createMessage .call 1 []] none) bareRt) := by
  rintro ⟨hs, -⟩
  exact hs ⟨⟨-1, 3⟩, ⟨7, 7⟩, by decide +kernel, rfl⟩

end Song
