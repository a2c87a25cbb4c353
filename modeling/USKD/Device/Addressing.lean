import USKD.Device.Packets

/-!
# Whose answer it is

The broker compares strings: the identifier of a client with those of the others, of which a new one
takes the place, and the topic of an answer, which is the response topic of the request, with the
topics that are subscribed to.  A device makes all of them from its name, and the name from the
number of its chip, of which it keeps a checksum only.

So whatever two devices have gone through, each gets the answers to its own requests, and one gets
the other's, or takes its place, if and only if the two checksums agree (`addressed_iff`).
-/

namespace USKD

theorem Utils.String.format_inj {before after : List UInt8} {s s' : Utils.String}
    (h : 0 ∉ before ++ after) : format before s after h = format before s' after h ↔ s = s' := by
  constructor
  · intro heq
    have hbytes := congrArg Utils.String.bytes heq
    have hmiddle := List.append_cancel_right hbytes
    obtain ⟨bytes, hzero⟩ := s
    obtain ⟨bytes', hzero'⟩ := s'
    obtain rfl : bytes = bytes' := List.append_cancel_left hmiddle
    rfl
  · rintro rfl
    rfl

namespace Device

/-- **What the broker compares** of two requests: the identifiers of two clients, or the topic of the
answer to one with the subscription of the other. -/
inductive Compares : RequestMQTT → RequestMQTT → Utils.String → Utils.String → Prop
  | clients {CID user password CID' user' password' : Utils.String} :
      Compares (.CONNECT CID user password) (.CONNECT CID' user' password') CID CID'
  | answer {topic message response topic' : Utils.String} :
      Compares (.PUBLISH topic message response) (.SUBSCRIBE topic') response topic'

variable {b b' : Build} {d d' : Device} {r r' : RequestMQTT} {name name' : Utils.String}

/-- Of two devices, the names alone are compared. -/
theorem compares_iff {uid uid' : Utils.String} (h : MQTT.Own uid r) (h' : MQTT.Own uid' r')
    (hcompares : Compares r r' name name') : name = name' ↔ uid = uid' := by
  cases hcompares with
  | clients =>
      rcases h with h | h | h
      · rcases h' with h' | h' | h'
        · obtain ⟨rfl, -, -⟩ := RequestMQTT.CONNECT.inj h
          obtain ⟨rfl, -, -⟩ := RequestMQTT.CONNECT.inj h'
          exact Utils.String.format_inj _
        · exact absurd h' RequestMQTT.noConfusion
        · exact absurd h' RequestMQTT.noConfusion
      · exact absurd h RequestMQTT.noConfusion
      · exact absurd h RequestMQTT.noConfusion
  | answer =>
      rcases h with h | h | h
      · exact absurd h RequestMQTT.noConfusion
      · exact absurd h RequestMQTT.noConfusion
      · rcases h' with h' | h' | h'
        · exact absurd h' RequestMQTT.noConfusion
        · obtain ⟨-, -, rfl⟩ := RequestMQTT.PUBLISH.inj h
          obtain rfl := RequestMQTT.SUBSCRIBE.inj h'
          exact Utils.String.format_inj _
        · exact absurd h' RequestMQTT.noConfusion

theorem own_of_mem {ops : List Op} (hrun : LTS.Run (LTS.stepOf (step b)) boot ops d)
    {connected : Bool} (h : .packet r connected ∈ d.history) : MQTT.Own b.uid r := by
  obtain ⟨pre, post, hhistory⟩ := List.append_of_mem h
  exact ((own_of_run hrun).history pre r connected post hhistory).1

/-- **Each answer to its device.**  In any runs of two devices, also of one and the same, for any two
requests that they have sent: what the broker compares of them agrees if and only if the numbers of
the chips have the same checksum. -/
theorem addressed_iff {id id' : Vector UInt8 12} (huid : b.uid = HAL.getUID id)
    (huid' : b'.uid = HAL.getUID id') {ops ops' : List Op}
    (hrun : LTS.Run (LTS.stepOf (step b)) boot ops d)
    (hrun' : LTS.Run (LTS.stepOf (step b')) boot ops' d') {connected connected' : Bool}
    (hsent : .packet r connected ∈ d.history) (hsent' : .packet r' connected' ∈ d'.history)
    (hcompares : Compares r r' name name') :
    name = name' ↔ Math.calculateCRC id.toList = Math.calculateCRC id'.toList := by
  rw [compares_iff (own_of_mem hrun hsent) (own_of_mem hrun' hsent') hcompares, huid, huid']
  exact HAL.getUID_eq_iff id id'

/-- A connection, a subscription, and a request for the time. -/
def asking : List Op :=
  toConnected ++ roundAt 6500 ++ ask 6500 ++ confirm 6500 (ascii "SUBS OK") ++ roundAt 7501 ++
    ask 7501 ++ confirm 7501 (ascii "PUBLISH OK")

/-- The state of `asking`. -/
def asked : Device := (LTS.execRun (step home) boot asking).getD boot

/-- The number of another chip, a bit apart, and a board without sensors that has it. -/
def neighbourId : Vector UInt8 12 := #v[0, 0, 0, 0, 0, 0, 0, 4, 184, 245, 25, 251]

@[inherit_doc neighbourId] def neighbour : Build := ⟨true, HAL.getUID neighbourId⟩

/-- Its state behind `asking`. -/
def neighbourAsked : Device := (LTS.execRun (step neighbour) boot asking).getD boot

set_option maxRecDepth 100000 in
theorem run_asked : LTS.Run (LTS.stepOf (step home)) boot asking asked :=
  LTS.run_getD (by decide)

set_option maxRecDepth 100000 in
theorem run_neighbourAsked :
    LTS.Run (LTS.stepOf (step neighbour)) boot asking neighbourAsked :=
  LTS.run_getD (by decide)

/-- The requests whose strings meet. -/
def isSubscribe : Event → Bool
  | .packet (.SUBSCRIBE _) _ => true
  | _ => false

@[inherit_doc isSubscribe] def isPublish : Event → Bool
  | .packet (.PUBLISH _ _ _) _ => true
  | _ => false

theorem exists_subscribe {history : List Event} (h : history.any isSubscribe = true) :
    ∃ topic connected, .packet (.SUBSCRIBE topic) connected ∈ history := by
  obtain ⟨event, hsent, hkind⟩ := List.any_eq_true.mp h
  unfold isSubscribe at hkind
  split at hkind
  · exact ⟨_, _, hsent⟩
  · exact absurd hkind (by simp)

theorem exists_publish {history : List Event} (h : history.any isPublish = true) :
    ∃ topic message response connected,
      .packet (.PUBLISH topic message response) connected ∈ history := by
  obtain ⟨event, hsent, hkind⟩ := List.any_eq_true.mp h
  unfold isPublish at hkind
  split at hkind
  · exact ⟨_, _, _, _, hsent⟩
  · exact absurd hkind (by simp)

set_option maxRecDepth 100000 in
theorem sent_asked : asked.history.any isSubscribe = true ∧ asked.history.any isPublish = true := by
  decide

set_option maxRecDepth 100000 in
theorem sent_neighbourAsked : neighbourAsked.history.any isSubscribe = true := by
  decide

/-- The device gets the answer to its request, and its neighbour does not. -/
theorem addressed_asked : ∃ topic message response e own e' other e'',
    .packet (.PUBLISH topic message response) e ∈ asked.history ∧
      .packet (.SUBSCRIBE own) e' ∈ asked.history ∧ response = own ∧
      .packet (.SUBSCRIBE other) e'' ∈ neighbourAsked.history ∧ response ≠ other := by
  obtain ⟨hsubscribe, hpublish⟩ := sent_asked
  obtain ⟨topic, message, response, e, hsent⟩ := exists_publish hpublish
  obtain ⟨own, e', hown⟩ := exists_subscribe hsubscribe
  obtain ⟨other, e'', hother⟩ := exists_subscribe sent_neighbourAsked
  have huid : home.uid = HAL.getUID HAL.layout := by decide
  have hne : Math.calculateCRC HAL.layout.toList ≠ Math.calculateCRC neighbourId.toList := by
    decide
  have hmine := addressed_iff huid huid run_asked run_asked hsent hown .answer
  have htheirs := addressed_iff huid rfl run_asked run_neighbourAsked hsent hother .answer
  exact ⟨topic, message, response, e, own, e', other, e'', hsent, hown, hmine.mpr rfl, hother,
    fun heq => hne (htheirs.mp heq)⟩

end Device

end USKD
