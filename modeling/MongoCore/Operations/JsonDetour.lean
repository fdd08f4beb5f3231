import MongoCore.Data.Serde
import MongoCore.Operations.TransactionPipeline

/-!
# Documents through JSON

The documents of a transaction pipeline are sent to its steps as JSON, and results are forwarded as
JSON.  The module says exactly which documents the driver receives as they were sent.
-/

namespace MongoCore.Operations.JsonDetour

open MongoCore.Data MongoCore.Operations.TransactionPipeline

variable (serde : Serde)

def Survives (document : Document) : Prop :=
  bsonFromJsonValue serde.codec (serde.codec.ofDocument document) = document

theorem bsonFromJsonValue_of_stable {document : Document} (h : serde.Stable (.document document)) :
    bsonFromJsonValue serde.codec (serde.ofBson (.document document)) = document := by
  have hconverted : serde.codec.toBson (serde.ofBson (.document document)) =
      some (.document document) := (serde.toBson_ofBson_iff _).mpr h
  rw [bsonFromJsonValue, hconverted]

/-- What does not convert to a document becomes the empty one. -/
theorem toBson_of_bsonFromJsonValue {json : Json} {document : Document}
    (h : bsonFromJsonValue serde.codec json = document) (hne : document ≠ []) :
    toBson serde.recognise json = some (.document document) := by
  have hcodec : serde.codec.toBson json = toBson serde.recognise json := rfl
  rw [bsonFromJsonValue, hcodec] at h
  split at h
  · rename_i converted hconverted
    rw [hconverted, h]
  · exact absurd h.symm hne

theorem survives_nil : Survives serde [] := by
  have hempty : serde.codec.toBson (serde.codec.ofDocument []) =
      some ((serde.recognise []).getD (.document [])) := rfl
  rw [Survives, bsonFromJsonValue, hempty]
  split
  · rename_i converted hconverted
    cases hrecognise : serde.recognise [] with
    | none =>
      rw [hrecognise, Option.getD_none] at hconverted
      exact (Bson.document.inj (Option.some.inj hconverted)).symm
    | some value =>
      rw [hrecognise, Option.getD_some] at hconverted
      exact absurd (Option.some.inj hconverted ▸ hrecognise)
        (serde.recognise_ne_document [] converted)
  · rfl

/-- A document that comes back as it was: an empty one, or a stable one. -/
def Intact (document : Document) : Prop := document = [] ∨ serde.Stable (.document document)

theorem Intact.survives {document : Document} (h : Intact serde document) :
    Survives serde document := by
  rcases h with rfl | hstable
  · exact survives_nil serde
  · exact bsonFromJsonValue_of_stable serde hstable

theorem Survives.intact {document : Document} (h : Survives serde document) :
    Intact serde document := by
  by_cases hempty : document = []
  · exact .inl hempty
  · exact .inr ((serde.toBson_ofBson_iff _).mp (toBson_of_bsonFromJsonValue serde h hempty))

/-- A document survives if and only if it is empty or stable. -/
theorem survives_iff (document : Document) :
    Survives serde document ↔ document = [] ∨ serde.Stable (.document document) :=
  ⟨Survives.intact serde, Intact.survives serde⟩

/-- A 32-bit integer comes back as a 64-bit one, and a number that is none as null. -/
theorem int32_widened :
    bsonFromJsonValue Serde.ofTags.codec
        (Serde.ofTags.codec.ofDocument [("n", .int32 5), ("x", .double 0x7FF8000000000000)]) =
      [("n", .int64 5), ("x", .null)] ∧
      ¬ Survives Serde.ofTags [("n", .int32 5), ("x", .double 0x7FF8000000000000)] := by
  have hresult : bsonFromJsonValue Serde.ofTags.codec
      (Serde.ofTags.codec.ofDocument [("n", .int32 5), ("x", .double 0x7FF8000000000000)]) =
        [("n", .int64 5), ("x", .null)] := by
    have hinfinite : isFinite 0x7FF8000000000000 = false := by decide
    have hjson : Serde.ofTags.codec.ofDocument
        [("n", .int32 5), ("x", .double 0x7FF8000000000000)] =
          .object [("n", .number (.posInt 5)), ("x", .null)] := by
      simp [Serde.codec, Serde.ofBson, Serde.ofBsonMembers, jsonInteger, hinfinite]
    rw [hjson]
    rfl
  refine ⟨hresult, fun hsurvives ↦ ?_⟩
  rw [Survives, hresult] at hsurvives
  simp at hsurvives

end MongoCore.Operations.JsonDetour
