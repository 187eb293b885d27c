import InstrumentBus.Client.Assignment
import InstrumentBus.Proofs.Text.Cut

/-!
Assignments as they are written on a command line. What is read is exactly what can be written: the
first equals sign ends the path, and the last two points in it divide it.
-/

namespace InstrumentBus.Assignment

variable {a : Assignment} {s : String}

def path (a : Assignment) : List Char :=
  a.device.toList ++ '.' :: (a.property.toList ++ '.' :: a.element.toList)

/-- Names that keep their places when they are written into a path. -/
structure IsWritable (a : Assignment) : Prop where
  device : a.device ≠ "" ∧ '=' ∉ a.device.toList
  property : a.property ≠ "" ∧ '=' ∉ a.property.toList ∧ '.' ∉ a.property.toList
  element : a.element ≠ "" ∧ '=' ∉ a.element.toList ∧ '.' ∉ a.element.toList

theorem toList_write : a.write.toList = a.path ++ '=' :: a.value.toList := by
  simp [write, path]

theorem eq_write_iff : s = a.write ↔ s.toList = a.path ++ '=' :: a.value.toList := by
  rw [← toList_write, String.toList_inj]

theorem not_mem_path_iff :
    '=' ∉ a.path ↔
      '=' ∉ a.device.toList ∧ '=' ∉ a.property.toList ∧ '=' ∉ a.element.toList := by
  simp [path, not_or]

theorem splitPath?_eq_some_iff {cs device property element : List Char} :
    splitPath? cs = some (device, property, element) ↔
      cs = device ++ '.' :: (property ++ '.' :: element) ∧ '.' ∉ property ∧ '.' ∉ element := by
  simp only [splitPath?, Option.bind_eq_bind, Option.bind_eq_some_iff, Prod.exists, Option.some.injEq,
    Prod.mk.injEq, Text.cutLast?_eq_some_iff]
  constructor
  · rintro ⟨_, _, ⟨rfl, helement⟩, _, _, ⟨rfl, hproperty⟩, rfl, rfl, rfl⟩
    exact ⟨List.append_assoc .., hproperty, helement⟩
  · rintro ⟨rfl, hproperty, helement⟩
    exact ⟨_, _, ⟨(List.append_assoc device ('.' :: property) _).symm, helement⟩, _, _,
      ⟨rfl, hproperty⟩, rfl, rfl, rfl⟩

theorem isEmpty_iff {cs : List Char} : cs.isEmpty = true ↔ String.ofList cs = "" := by
  rw [List.isEmpty_iff, String.ofList_eq_empty_iff]

theorem read_of_isWritable (h : a.IsWritable) (hs : s = a.write) : read s = .ok a := by
  have hcut : Text.cutFirst? '=' s.toList = some (a.path, a.value.toList) :=
    Text.cutFirst?_eq_some_iff.2
      ⟨eq_write_iff.1 hs, not_mem_path_iff.2 ⟨h.device.2, h.property.2.1, h.element.2.1⟩⟩
  have hsplit : splitPath? a.path =
      some (a.device.toList, a.property.toList, a.element.toList) :=
    splitPath?_eq_some_iff.2 ⟨rfl, h.property.2.2, h.element.2.2⟩
  simp [read, hcut, hsplit, h.device.1, h.property.1, h.element.1]

theorem exists_parts_of_read (h : read s = .ok a) :
    s.toList = a.path ++ '=' :: a.value.toList ∧ '=' ∉ a.path ∧
      ('.' ∉ a.property.toList ∧ '.' ∉ a.element.toList) ∧
      ¬(a.device = "" ∨ a.property = "" ∨ a.element = "") := by
  unfold read at h
  cases hcut : Text.cutFirst? '=' s.toList with
  | none => simp [hcut] at h
  | some parts =>
    obtain ⟨cs, value⟩ := parts
    cases hsplit : splitPath? cs with
    | none => simp [hcut, hsplit] at h
    | some names =>
      obtain ⟨device, property, element⟩ := names
      simp only [hcut, hsplit, isEmpty_iff] at h
      split at h
      · cases h
      · rename_i hnames
        cases h
        obtain ⟨hs, hequals⟩ := Text.cutFirst?_eq_some_iff.1 hcut
        obtain ⟨rfl, hpoints⟩ := splitPath?_eq_some_iff.1 hsplit
        simp only [path, String.toList_ofList]
        exact ⟨hs, hequals, hpoints, hnames⟩

theorem isWritable_of_read (h : read s = .ok a) : a.IsWritable ∧ s = a.write := by
  obtain ⟨hs, hequals, ⟨hproperty, helement⟩, hnames⟩ := exists_parts_of_read h
  obtain ⟨hdevice', hproperty', helement'⟩ := not_mem_path_iff.1 hequals
  rw [not_or, not_or] at hnames
  exact ⟨⟨⟨hnames.1, hdevice'⟩, ⟨hnames.2.1, hproperty', hproperty⟩,
    ⟨hnames.2.2, helement', helement⟩⟩, eq_write_iff.2 hs⟩

/-- A text is read as an assignment if and only if it is how this assignment is written and the
names in it keep their places. Any other text is refused. -/
theorem read_exactly_written (s : String) :
    (∀ a, read s = .ok a ↔ a.IsWritable ∧ s = a.write) ∧
      ((∃ e, read s = .error e) ↔ ∀ a : Assignment, a.IsWritable → s ≠ a.write) := by
  have haccepted (a : Assignment) : read s = .ok a ↔ a.IsWritable ∧ s = a.write :=
    ⟨isWritable_of_read, fun ⟨ha, hs⟩ => read_of_isWritable ha hs⟩
  refine ⟨haccepted, ?_⟩
  constructor
  · rintro ⟨e, he⟩ a ha hs
    cases he.symm.trans ((haccepted a).2 ⟨ha, hs⟩)
  · intro hnone
    cases hread : read s with
    | ok a =>
      obtain ⟨ha, hs⟩ := (haccepted a).1 hread
      exact absurd hs (hnone a ha)
    | error e => exact ⟨e, rfl⟩

example : read "Mount v1.2.EQUATORIAL.RA=5=30" = .ok ⟨"Mount v1.2", "EQUATORIAL", "RA", "5=30"⟩ := by
  rfl

end InstrumentBus.Assignment
