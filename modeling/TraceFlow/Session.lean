/-
TraceFlow.Session — surroundings as a value.

A session holds a volume, a layout tool, and all that was printed and
noted. Running the program in a session changes nothing else, so what it
does can be read off the session afterwards.
-/
import TraceFlow.Host
import TraceFlow.Volume

namespace TraceFlow

/-- Surroundings as a value. -/
structure Session where
  volume : Volume := {}
  /-- What the layout tool does with the bytes of a drawing; there is none at first. -/
  tool : List UInt8 → Except Failure LayoutRun := fun _ => .error (.layout (.notStarted .notFound))
  printed : Array String := #[]
  notes : Array Note := #[]

namespace Session

/-- Changes the volume, or says why that cannot be done. -/
def changing (f : Volume → Except FileError Volume) : StateM Session (Except FileError Unit) :=
  modifyGet fun s =>
    match f s.volume with
    | .ok v => (.ok (), { s with volume := v })
    | .error e => (.error e, s)

def reading (v : Volume) (path : String) : Reading :=
  match v.content path with
  | .error e => .closed e
  | .ok (.error e) => .unreadable e
  | .ok (.ok bytes) => .bytes bytes

instance : Host (StateM Session) where
  read path := return reading (← get).volume path
  write path bytes := changing fun v => v.write path bytes
  modified? path := return (← get).volume.modified? path
  isDirectory path := return (← get).volume.isDirectory path
  makeDirectory path := changing fun v => v.makeDirectory path
  layout drawing := return (← get).tool (Utf8.encode drawing)
  print text := modify fun s => { s with printed := s.printed.push text }
  note n := modify fun s => { s with notes := s.notes.push n }

def output (s : Session) : String := String.join s.printed.toList

/-- The notes of a level and the more important ones, each on a line. -/
def remarks (level : Level) (s : Session) : String :=
  String.join ((Note.visible level s.notes.toList).map Note.line)

end Session

end TraceFlow
