import LeaseCache.Memory
import LeaseCache.Proofs.FileOperations

/-!
# What a marker shows

Reading a marker changes the count of its readings and nothing else, and its answer is told by what
the marker looks at and by the files (`Marker.read_eq_signal`). A memory that reads its marker
reports a failed reading and takes it for no signal (`Memory.reading_eq_signal`).
-/

namespace LeaseCache

variable {σ : Type}

/-- What a marker shows while the files are as they are, or the words of a failure. -/
def MarkerKind.signal (kind : MarkerKind) (fs : FileSystem) : Except String Signal :=
  match kind with
  | .counter generation => .ok (.generation generation)
  | .fixed answer => answer
  | .file path => ((Disk.modified path fs).1.map .modified).mapError FileError.message

theorem MarkerKind.signal_file {path : Path} {fs fs' : FileSystem} {r : Except FileError Timestamp}
    (h : Disk.modified path fs = (r, fs')) :
    (MarkerKind.file path).signal fs = (r.map .modified).mapError FileError.message :=
  congrArg (fun x => (x.1.map Signal.modified).mapError FileError.message) h

namespace World

/-- What the marker under a number shows. -/
def signal (w : World σ) (n : Nat) : Except String Signal := (w.markers.get n).kind.signal w.files

/-- Counts a reading of a marker. -/
def countRead (w : World σ) (n : Nat) : World σ :=
  { w with markers := w.markers.modify n fun m => { m with reads := m.reads + 1 } }

theorem kind_countRead (w : World σ) (n l : Nat) :
    ((w.countRead n).markers.get l).kind = (w.markers.get l).kind := by
  rw [countRead, Pool.get_modify]
  split
  · next hl => rw [hl]
  · rfl

theorem reads_countRead (w : World σ) (n l : Nat) :
    ((w.countRead n).markers.get l).reads =
      (w.markers.get l).reads + if n = l then 1 else 0 := by
  rw [countRead, Pool.get_modify]
  by_cases hl : l = n
  · rw [if_pos hl, if_pos hl.symm, hl]
  · rw [if_neg hl, if_neg (Ne.symm hl)]
    rfl

end World

theorem Marker.read_eq_signal (n : Nat) (w : World σ) :
    read n w = (.ok (w.signal n), w.countRead n) := by
  have hkind := w.kind_countRead n n
  rw [read, Act.bind_ok _ (show Act.change _ w = (.ok (), w.countRead n) from rfl),
    Act.bind_ok _ (show Act.look _ (w.countRead n) =
      (.ok ((w.countRead n).markers.get n), w.countRead n) from rfl), hkind]
  unfold World.signal
  cases (w.markers.get n).kind with
  | counter generation => rfl
  | fixed answer => rfl
  | file path =>
    obtain ⟨r, hmodified⟩ := Disk.modified_keeps path w.files
    have hdisk : Act.disk (Disk.modified path) (w.countRead n) = (.ok r, w.countRead n) := by
      rw [Act.disk, show (w.countRead n).files = w.files from rfl, hmodified]
      rfl
    rw [MarkerKind.signal_file hmodified]
    cases r with
    | ok time => exact Act.bind_ok _ hdisk
    | error e => exact Act.bind_ok _ hdisk

namespace Memory

/-- What is reported of a reading. -/
def complaints (handle : Path) : Except String Signal → List Event
  | .ok _ => []
  | .error message => [.unreadableMarker handle message]

theorem reading_eq_signal (handle : Path) (n : Nat) (w : World σ) :
    reading handle n w = (.ok (w.signal n).toOption,
      { w.countRead n with journal := w.journal ++ complaints handle (w.signal n) }) := by
  rw [reading, Act.bind_ok _ (Marker.read_eq_signal n w)]
  cases w.signal n with
  | ok signal =>
    show (_, w.countRead n) = (_, { w.countRead n with journal := w.journal ++ [] })
    rw [List.append_nil]
    rfl
  | error message => rfl

end Memory

end LeaseCache
