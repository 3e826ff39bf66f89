/-!
# Ids and times

New elements need ids and saved diagrams need times. Both are handed out in sequence by a supply,
which counts what it has given away. The ids of a supply are meant to be distinct and its times to
be increasing; where that matters it is an assumption on `idAt` and `timeAt`.
-/

namespace ClassAtlas

/-- A sequence of ids and a clock. -/
structure Supply where
  idAt : Nat → String
  timeAt : Nat → Int
  /-- How many ids have been taken. -/
  idsTaken : Nat := 0
  /-- How often the clock has been read. -/
  timesRead : Nat := 0

/-- The next id. -/
def Supply.nextId (s : Supply) : String := s.idAt s.idsTaken

/-- The supply after an id has been taken. -/
def Supply.afterId (s : Supply) : Supply := { s with idsTaken := s.idsTaken + 1 }

/-- What the clock shows when it is read next. -/
def Supply.now (s : Supply) : Int := s.timeAt s.timesRead

/-- The supply after the clock has been read. -/
def Supply.afterTime (s : Supply) : Supply := { s with timesRead := s.timesRead + 1 }

end ClassAtlas
