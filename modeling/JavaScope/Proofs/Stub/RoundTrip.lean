/-
# Reading back what was laid out

The main fact about class stubs: from every class file that lays out a description comes the
stub of the description (`ofBytes_laid`).  There is one exception.  The reader takes the name
`void` of a parameter type for the sign of a method that returns nothing, so that it refuses
a method with a parameter of the class that is called `void`.
-/
import JavaScope.Proofs.Stub.Assembly

namespace JavaScope.ClassStub

/-- Every class file that lays out a description is read as the stub of the description,
unless a method takes a parameter of the class called `void`; then the descriptor of the first
such method is refused. -/
theorem ofBytes_laid {d : ClassDescription} {bytes : List UInt8} (hd : d.Valid)
    (h : d.Laid bytes) :
    ofBytes bytes =
      match d.methods.find? (·.takesClassVoid) with
      | none => .ok d.stub
      | some m => .error (.badDescriptor m.type.descriptor) := by
  obtain ⟨events, htold, hscan⟩ := exhausts_classFile (v := StubDraft.visitor) hd h
  have hevents := StubDraft.visitAll_toldBy hd htold
  have hrun := hscan 0 .awaitingClass
  rw [hevents] at hrun
  simp only [ofBytes, scanClass, Cursor.start]
  cases hfind : d.methods.find? (·.takesClassVoid) with
  | none =>
    simp only [hfind] at hrun
    rw [hrun]
    rfl
  | some m =>
    simp only [hfind] at hrun
    rw [hrun]
    rfl

/-! ## A class file -/

/-- A class with a constant, and with a method that takes a parameter of the class `name`. -/
def sampleClass (name : ClassName) : ClassDescription where
  version := ⟨52, 0⟩
  access := 0x0421
  name := "A"
  superName := some "java/lang/Object"
  interfaces := []
  signature := none
  innerClasses := []
  annotations := []
  fields := [⟨0x0019, "x", ⟨.primitive .int, 0⟩, none, some (.int 7), []⟩]
  methods := [⟨0x0401, "m", ⟨[⟨.named name, 0⟩], .void⟩, none, [], none, []⟩]

/-- The pool of the sample class. -/
def samplePool (name : ClassName) : List PoolEntry :=
  [.classEntry 2, .utf8 "A", .classEntry 4, .utf8 "java/lang/Object", .utf8 "x", .utf8 "I",
    .utf8 "ConstantValue", .integer 7, .utf8 "m",
    .utf8 (MethodType.mk [⟨.named name, 0⟩] .void).descriptor]

/-- The bytes of the field of the sample class. -/
def sampleField : List UInt8 :=
  be16 0x0019 ++ (be16 5 ++ (be16 6 ++ (be16 1 ++ (be16 7 ++ (be32 2 ++ be16 8)))))

/-- The bytes of the method of the sample class. -/
def sampleMethod : List UInt8 := be16 0x0401 ++ (be16 9 ++ (be16 10 ++ be16 0))

/-- A class file of the sample class. -/
def sampleFile (name : ClassName) : List UInt8 :=
  be32 0xCAFEBABE ++ (be16 0 ++ (be16 52 ++
    ((be16 11 ++ (samplePool name).flatMap PoolEntry.bytes) ++
      (be16 0x0421 ++ (be16 1 ++ (be16 3 ++ (be16 0 ++ ((be16 1 ++ sampleField) ++
        ((be16 1 ++ sampleMethod) ++ be16 0)))))))))

lemma counted_nil {α : Type} (Laid : α → List UInt8 → Prop) : Counted Laid [] (be16 0) :=
  ⟨by simp, [], .nil, rfl⟩

lemma counted_singleton {α : Type} {Laid : α → List UInt8 → Prop} {a : α} {bytes : List UInt8}
    (h : Laid a bytes) : Counted Laid [a] (be16 1 ++ bytes) :=
  ⟨by simp, bytes ++ [], .cons h .nil, by rw [List.append_nil]; rfl⟩

lemma laid_sampleField (name : ClassName) :
    (FieldDescription.mk 0x0019 "x" ⟨.primitive .int, 0⟩ none (some (.int 7)) []).Laid
      (samplePool name) sampleField := by
  have hconstant : (AttributeContent.constantValue (.int 7)).Laid (samplePool name)
      (be16 7 ++ (be32 2 ++ be16 8)) := by
    refine ⟨be16 7, be16 8, ⟨7, ?_, rfl⟩, .inl ⟨8, _, .int 7, ?_, rfl⟩, by decide, rfl⟩
    · exact ⟨(samplePool name).take 6, (samplePool name).drop 7, rfl, rfl⟩
    · exact ⟨(samplePool name).take 7, (samplePool name).drop 8, rfl, rfl⟩
  refine ⟨[.constantValue (.int 7)], ⟨?_, rfl, rfl, rfl⟩,
    ⟨be16 5, be16 6, _, ⟨5, ?_, rfl⟩, ⟨6, ?_, rfl⟩, counted_singleton hconstant, rfl⟩⟩
  · intro a ha
    rw [List.mem_singleton.mp ha]
    exact List.mem_of_elem_eq_true rfl
  · exact ⟨(samplePool name).take 4, (samplePool name).drop 5, rfl, rfl⟩
  · exact ⟨(samplePool name).take 5, (samplePool name).drop 6, rfl, rfl⟩

lemma laid_sampleMethod (name : ClassName) :
    (MethodDescription.mk 0x0401 "m" ⟨[⟨.named name, 0⟩], .void⟩ none [] none []).Laid
      (samplePool name) sampleMethod := by
  refine ⟨[], ⟨?_, rfl, ⟨none, rfl, rfl⟩, rfl, rfl⟩,
    ⟨be16 9, be16 10, _, ⟨9, ?_, rfl⟩, ⟨10, ?_, rfl⟩, counted_nil _, rfl⟩⟩
  · intro a ha
    cases ha
  · exact ⟨(samplePool name).take 8, (samplePool name).drop 9, rfl, rfl⟩
  · exact ⟨(samplePool name).take 9, [], rfl, rfl⟩

lemma laid_sampleFile (name : ClassName)
    (h : (PoolEntry.utf8 (MethodType.mk [⟨.named name, 0⟩] .void).descriptor).Fits) :
    (sampleClass name).Laid (sampleFile name) := by
  refine ⟨samplePool name, _, _, ⟨?_, ?_, rfl⟩, ?_, rfl⟩
  · intro e he
    simp only [samplePool, List.mem_cons, List.not_mem_nil, or_false] at he
    rcases he with rfl | rfl | rfl | rfl | rfl | rfl | rfl | rfl | rfl | rfl
    · trivial
    · show _ < 65536; decide
    · trivial
    · show _ < 65536; decide
    · show _ < 65536; decide
    · show _ < 65536; decide
    · show _ < 65536; decide
    · trivial
    · show _ < 65536; decide
    · exact h
  · show 11 < 65536
    decide
  · refine ⟨[], be16 1, be16 3, be16 0, _, _, be16 0, ⟨?_, rfl, rfl, rfl⟩, ⟨1, 2, ?_, ?_, rfl⟩,
      ⟨3, 4, ?_, ?_, rfl⟩, counted_nil _, counted_singleton (laid_sampleField name),
      counted_singleton (laid_sampleMethod name), counted_nil _, rfl⟩
    · intro a ha
      cases ha
    · exact ⟨[], (samplePool name).drop 1, rfl, rfl⟩
    · exact ⟨(samplePool name).take 1, (samplePool name).drop 2, rfl, rfl⟩
    · exact ⟨(samplePool name).take 2, (samplePool name).drop 3, rfl, rfl⟩
    · exact ⟨(samplePool name).take 3, (samplePool name).drop 4, rfl, rfl⟩

lemma valid_sampleClass (name : ClassName) : (sampleClass name).Valid where
  version := show (45 : UInt16) ≤ 52 by decide
  annotations := by simp [sampleClass]
  fields := by simp [sampleClass, FieldDescription.Valid, FieldType.Admits]
  methods := by simp [sampleClass, MethodDescription.Valid]

/-- With a parameter of a class called `Void` the sample is read, with one of the class called
`void` it is refused. -/
theorem ofBytes_sampleFile :
    let capital : ClassName := ⟨"Void", by decide, by decide⟩
    let small : ClassName := ⟨"void", by decide, by decide⟩
    ((sampleClass capital).Valid ∧ (sampleClass capital).Laid (sampleFile capital) ∧
        ofBytes (sampleFile capital) = .ok (sampleClass capital).stub) ∧
      (sampleClass small).Valid ∧ (sampleClass small).Laid (sampleFile small) ∧
        ofBytes (sampleFile small) = .error (.badDescriptor "(Lvoid;)V") := by
  intro capital small
  have hcapital := laid_sampleFile capital (by show _ < 65536; decide)
  have hsmall := laid_sampleFile small (by show _ < 65536; decide)
  refine ⟨⟨valid_sampleClass capital, hcapital, ?_⟩, valid_sampleClass small, hsmall, ?_⟩
  · exact ofBytes_laid (valid_sampleClass capital) hcapital
  · have hrefused := ofBytes_laid (valid_sampleClass small) hsmall
    have hdescriptor : (MethodType.mk [⟨.named small, 0⟩] .void).descriptor = "(Lvoid;)V" := by
      decide
    rw [← hdescriptor]
    exact hrefused

end JavaScope.ClassStub
