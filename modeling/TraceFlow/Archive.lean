/-
TraceFlow.Archive — function maps in files.

`Archive.text` writes a map as one line of JSON, `Archive.read?` reads it
back or says why a file holds no map. Every field of the map is written,
so a map that was read equals the one that was written.
-/
import TraceFlow.Archive.Records

namespace TraceFlow.Archive

def text (m : FunctionMap) : String := m.document.compact

def read? (bytes : List UInt8) : Except Json.Misfit FunctionMap :=
  Json.Reader.read? (Json.Reader.record mapRecord) bytes

end TraceFlow.Archive
