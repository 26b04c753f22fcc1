import HotReload.Change.Notification
import HotReload.Proofs.Json.Documents
import HotReload.Session.Message

/-!
# Messages survive the wire

What is sent to the page, and what a file watcher sends, is read back as it was, whatever
characters its strings hold.  The text of a message is read as a document (`Value.parse?_text`);
what is left is that the fields which a form writes are the ones that the reader of this form asks
for, in their order, and that a reason which is not written is read as none.
-/

namespace HotReload

open Json

namespace Message

/-- A message holds no number. -/
theorem value_integral (m : Message) : m.value.Integral := by
  cases m with
  | reload reason =>
      cases reason with
      | none => simp [value, Value.Integral, Value.IntegralMembers]
      | some reason => simp [value, Value.Integral, Value.IntegralMembers]
  | patched component parents =>
      simp [value, Value.Integral, Value.IntegralMembers, Value.integralItems_strings]
  | failed path error => simp [value, Value.Integral, Value.IntegralMembers]

/-- A message holds no field twice. -/
theorem value_wellFormed (m : Message) : m.value.WellFormed := by
  cases m with
  | reload reason =>
      cases reason with
      | none => simp [value, Value.WellFormed, Value.WellFormedMembers]
      | some reason => simp [value, Value.WellFormed, Value.WellFormedMembers]
  | patched component parents =>
      simp [value, Value.WellFormed, Value.WellFormedMembers, Value.wellFormedItems_strings]
  | failed path error => simp [value, Value.WellFormed, Value.WellFormedMembers]

/-- The document of a message is a list of texts in an object at most. -/
theorem nesting_value (m : Message) : m.value.raw.nesting ≤ Raw.nestingLimit := by
  cases m with
  | reload reason =>
      cases reason with
      | none => exact Nat.le_of_ble_eq_true rfl
      | some reason => exact Nat.le_of_ble_eq_true rfl
  | patched component parents =>
      simp [value, Value.raw, Value.rawMembers, Raw.nesting, Raw.nestingMembers, Raw.nestingLimit,
        Value.nestingItems_strings]
  | failed path error => exact Nat.le_of_ble_eq_true rfl

/-- Members of different names are read by the names of the fields of their form. -/
theorem ofRaw?_object {form : String} {names : List String} {members : List (String × Value)}
    (known : fieldNames? form = some names)
    (apart : ((("type", .string form) :: members).map Prod.fst).Nodup) :
    ofRaw? (Value.object (("type", .string form) :: members)).raw =
      (names.mapM (field? ((("type", .string form) :: members).map fun (k, v) => (k, v.raw)))).bind
        (ofFields? form) := by
  have once : onceEach names
      ((("type", Value.string form) :: members).map fun (k, v) => (k, v.raw)) = true :=
    onceEach_of_nodup (by simpa [Function.comp_def] using apart)
  rw [Value.raw, ofRaw?, ofMembers?, Value.fields?_raw _ apart]
  simp only [List.map_cons, List.lookup_cons_self, Option.bind_some, Value.text?_raw, known]
  rw [List.map_cons] at once
  rw [if_pos once]

theorem reason?_raw (reason : String) : reason? (Value.string reason).raw = some (some reason) := by
  have read := Value.text?_raw reason
  rw [Value.raw] at read ⊢
  rw [reason?, read, Option.map_some]
  simp

/-- The document of a message is read as the message. -/
theorem ofRaw?_value (m : Message) : ofRaw? m.value.raw = some m := by
  cases m with
  | reload reason =>
      cases reason with
      | none =>
          rw [value, ofRaw?_object rfl (by simp)]
          rfl
      | some reason =>
          rw [value, ofRaw?_object rfl (by simp)]
          simp [field?, List.lookup_cons, ofFields?, reason?_raw]
  | patched component parents =>
      rw [value, ofRaw?_object rfl (by simp)]
      simp [field?, List.lookup_cons, ofFields?, Value.text?_raw, Value.texts?_raw]
  | failed path error =>
      rw [value, ofRaw?_object rfl (by simp)]
      simp [field?, List.lookup_cons, ofFields?, Value.text?_raw]

/-- A message that has been sent is read as the message. -/
theorem parse?_render (m : Message) : parse? m.render = some m := by
  have readable := Value.value?_raw m.value m.value_integral m.value_wellFormed
  rw [parse?, render, Value.parse?_text m.value_integral]
  simp only [Raw.bounded?, m.nesting_value, if_true, readable, Option.isSome_some]
  exact m.ofRaw?_value

end Message

namespace Change
namespace Notification

theorem value_integral (n : Notification) : n.value.Integral := by
  have small := n.timestamp.toNat_lt
  exact ⟨trivial, trivial, trivial, trivial, ⟨by omega, by omega⟩, trivial⟩

/-- The document of a notification is read as the notification. -/
theorem ofRaw?_value (n : Notification) : ofRaw? n.value.raw = some n := by
  rw [value, Value.raw, ofRaw?, Value.fields?_raw _ (by simp)]
  simp [fieldNames, List.lookup_cons, ofFields?, Value.text?_raw, Value.word?_raw]

/-- A notification that has been sent is read as the notification. -/
theorem parse?_render (n : Notification) : parse? n.render = some n := by
  rw [parse?, render, Value.parse?_text n.value_integral, Option.bind_some, n.ofRaw?_value]

end Notification
end Change

/-- What is sent to the page and what a file watcher sends is read back as it was. -/
theorem wire_preserves : (∀ m : Message, Message.parse? m.render = some m) ∧
    ∀ n : Change.Notification, Change.Notification.parse? n.render = some n :=
  ⟨Message.parse?_render, Change.Notification.parse?_render⟩

end HotReload
