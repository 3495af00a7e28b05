/-
  Be300.Ui.ButtonMask — the connected parts of the frame's button mask
  (`ui_collect_button_components` of `src/ui_button_mask.c`).

  A pixel is its index in the mask, row by row. An access outside an array of one entry for
  each pixel is a fault, as is a byte behind the end of the work queue, and the search runs out
  of fuel if it does not end. The centre of a component is kept as the sums of its pixels'
  places. `enqueued` lists the pixels that have been in the queue; nothing depends on it.
-/

import Mathlib.Algebra.Ring.Nat
import Mathlib.Logic.Function.Basic

namespace Be300.Ui

def minArea : Nat := 500
def maxComponents : Nat := 16

inductive Fault where
  | outside
  | queue
  | fuel
  deriving DecidableEq

structure Mask where
  width : Nat
  height : Nat
  active : Nat → Bool

def Mask.pixels (m : Mask) : Nat := m.width * m.height

structure Component where
  area : Nat
  minX : Nat
  minY : Nat
  maxX : Nat
  maxY : Nat
  sumX : Nat
  sumY : Nat
  deriving DecidableEq

def areaAt (components : List Component) (i : Nat) : Nat := ((components[i]?).map Component.area).getD 0

/-- The place of the smallest component, the first one of several. -/
def smallestOf (components : List Component) : Nat :=
  (List.range' 1 (components.length - 1)).foldl
    (fun smallest i => if areaAt components i < areaAt components smallest then i else smallest) 0

def insertButtonComponent (components : List Component) (component : Component) : List Component :=
  if component.area < minArea then components
  else if components.length < maxComponents then components ++ [component]
  else
    let smallest := smallestOf components
    if areaAt components smallest < component.area then components.set smallest component else components

/-! ## One component -/

/-- The queue from its start to `tail`, and the component so far. -/
structure Search where
  seen : Nat → Bool
  queue : List Nat
  head : Nat
  component : Component

def grow (c : Component) (px py : Nat) : Component :=
  { area := c.area + 1, sumX := c.sumX + px, sumY := c.sumY + py
    minX := if px < c.minX then px else c.minX
    maxX := if c.maxX < px then px else c.maxX
    minY := if py < c.minY then py else c.minY
    maxY := if c.maxY < py then py else c.maxY }

/-- A neighbour goes into the queue if it is active and new. -/
def look (m : Mask) (np : Nat) (s : Search) : Except Fault Search :=
  if m.pixels ≤ np then .error .outside
  else if !m.active np || s.seen np then .ok s
  else if m.pixels ≤ s.queue.length then .error .queue
  else .ok { s with seen := Function.update s.seen np true, queue := s.queue ++ [np] }

/-- From a coordinate less one to it plus one, within a length. -/
def span (p length : Nat) : List Nat :=
  let first := if 0 < p then p - 1 else p
  let last := if p + 1 < length then p + 1 else p
  List.range' first (last + 1 - first)

/-- Every place but the pixel's own. -/
def lookAt (m : Mask) (px py ny nx : Nat) (s : Search) : Except Fault Search :=
  if nx = px ∧ ny = py then .ok s else look m ((ny * m.width + nx) % 2 ^ 32) s

def lookRow (m : Mask) (px py ny : Nat) : List Nat → Search → Except Fault Search
  | [], s => .ok s
  | nx :: cols, s => do
    let s ← lookAt m px py ny nx s
    lookRow m px py ny cols s

def lookAround (m : Mask) (px py : Nat) : List Nat → Search → Except Fault Search
  | [], s => .ok s
  | ny :: rows, s => do
    let s ← lookRow m px py ny (span px m.width) s
    lookAround m px py rows s

def visit (m : Mask) (p : Nat) (s : Search) : Except Fault Search :=
  let px := p % m.width
  let py := p / m.width
  lookAround m px py (span py m.height) { s with head := s.head + 1, component := grow s.component px py }

def drain (m : Mask) : Nat → Search → Except Fault Search
  | 0, _ => .error .fuel
  | fuel + 1, s =>
    if h : s.head < s.queue.length then do
      let s ← visit m s.queue[s.head] s
      drain m fuel s
    else .ok s

/-! ## The mask -/

structure Scan where
  seen : Nat → Bool
  components : List Component
  enqueued : List Nat

def scanPixel (m : Mask) (y x : Nat) (s : Scan) : Except Fault Scan :=
  let start := (y * m.width + x) % 2 ^ 32
  if m.pixels ≤ start then .error .outside
  else if !m.active start || s.seen start then .ok s
  else do
    let found ← drain m (m.pixels + 1)
      { seen := Function.update s.seen start true, queue := [start], head := 0
        component := { area := 0, minX := x, minY := y, maxX := x, maxY := y, sumX := 0, sumY := 0 } }
    pure
      { seen := found.seen
        components :=
          if minArea ≤ found.component.area then insertButtonComponent s.components found.component else s.components
        enqueued := s.enqueued ++ found.queue }

def scanRow (m : Mask) (y : Nat) : List Nat → Scan → Except Fault Scan
  | [], s => .ok s
  | x :: cols, s => do
    let s ← scanPixel m y x s
    scanRow m y cols s

def scanRows (m : Mask) : List Nat → Scan → Except Fault Scan
  | [], s => .ok s
  | y :: rows, s => do
    let s ← scanRow m y (List.range m.width) s
    scanRows m rows s

/-- Whether there are any, the components by falling area, and what has been enqueued. -/
def collectButtonComponents (m : Mask) : Except Fault (Bool × List Component × List Nat) :=
  if m.width = 0 ∨ m.height = 0 then .ok (false, [], [])
  else do
    let s ← scanRows m (List.range m.height) { seen := fun _ => false, components := [], enqueued := [] }
    if s.components = [] then pure (false, [], s.enqueued)
    else pure (true, s.components.mergeSort fun a b => decide (b.area ≤ a.area), s.enqueued)

end Be300.Ui
