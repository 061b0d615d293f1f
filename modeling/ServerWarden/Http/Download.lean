/-
# Fetching texts and files

Only an answer with the status of success counts.  A file is written after the whole of it has come,
and the directories above it are made as needed.
-/
import ServerWarden.Http.Status
import ServerWarden.Machine

namespace ServerWarden.Http

/-- The body of a page. -/
def body (m : Machine) (url : String) : Attempt (List UInt8) :=
  match m.fetch url with
  | none => throw (.http url)
  | some page =>
    if page.status = okStatus then return page.body
    else throw (.update (.badStatus url (statusText page.status)))

def getText (m : Machine) (url : String) : Attempt String := do
  return Text.Utf8.decodeLossy (← body m url)

/-- Fetches a page into a file.  Answers the number of bytes. -/
def download (m : Machine) (url destination : String) : Attempt Nat := do
  let bytes ← body m url
  match Path.parent? destination with
  | some directory => Attempt.change (·.makeDirectories directory)
  | none => pure ()
  Attempt.change (·.write destination bytes)
  Attempt.say .info .download s!"Downloaded {bytes.length} bytes from {url} to {destination}"
  return bytes.length

end ServerWarden.Http
