import CrowdPad.Proofs.Data.Decode
import CrowdPad.Proofs.Data.Json.Layout
import CrowdPad.Wire.Message

/-! Messages on the wire. The bytes of a message are read as the message, or as one of another version
if that is what it is. -/

namespace CrowdPad

theorem Transition.toChoice?_name (t : Transition) :
    (Value.text t.name).toChoice? Transition.names = some t := by
  cases t <;> rfl

namespace WireMessage

theorem isExact_toValue (m : WireMessage) : Json.isExact m.toValue := rfl

theorem toWireMessage?_toValue (m : WireMessage) : m.toValue.toWireMessage? = some m := by
  have hfields : m.toValue.toFields? ["v", "player_index", "key", "transition", "seq"] =
      some [some (.nat m.version.toNat), some (.nat m.player.toNat), some (.text m.key),
        some (.text m.transition.name), some (.nat m.seq.toNat)] := rfl
  have hversion : (Value.nat m.version.toNat).toNat8? = some m.version.toNat :=
    Value.toNat?_nat m.version.toNat_lt
  have hplayer : (Value.nat m.player.toNat).toNat8? = some m.player.toNat :=
    Value.toNat?_nat m.player.toNat_lt
  have hseq : (Value.nat m.seq.toNat).toNat64? = some m.seq.toNat :=
    Value.toNat?_nat m.seq.toNat_lt
  rw [Value.toWireMessage?, hfields]
  simp only [Option.bind_eq_bind, Option.bind_some, Value.required, hversion, hplayer, hseq,
    Transition.toChoice?_name, Value.toText?, Option.pure_def, Nat.toUInt8_eq, Nat.toUInt64_eq,
    UInt8.ofNat_toNat, UInt64.ofNat_toNat]

/-- What is read where a message was written. -/
def echo (m : WireMessage) : Except WireError WireMessage :=
  if m.version = wireVersion then .ok m else .error (.unsupportedVersion m.version)

theorem ofPayload_payload (m : WireMessage) : ofPayload m.payload = m.echo := by
  have hread : (Json.readBytes m.payload).bind Value.toWireMessage? = some m := by
    rw [payload, Json.readBytes_compact m.isExact_toValue, Option.bind_some]
    exact m.toWireMessage?_toValue
  unfold ofPayload
  rw [hread]
  rfl

end WireMessage

end CrowdPad
