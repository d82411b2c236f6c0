import Ambient.Annotation.Alias

/-!
# Configuration

What a run can be told: where to write, which names stand for which types,
which members to comment out, which base declarations to start with, and
what to write as the time of generation.
-/

namespace Ambient

/-- The file written when none is named. -/
def defaultOutput : String := "qooxdoo.d.ts"

/-- The names of common types in annotations. The loose ones at the end have
no counterpart in declarations. -/
def defaultAliases : List (String × String) := [
  ("Event", "qx.event.type.Event"),
  ("LocalizedString", "qx.locale.LocalizedString"),
  ("LayoutItem", "qx.ui.core.LayoutItem"),
  ("Widget", "qx.ui.core.Widget"),
  ("Decorator", "qx.ui.decoration.Decorator"),
  ("MWidgetController", "qx.ui.list.core.MWidgetController"),
  ("AbstractTreeItem", "qx.ui.tree.core.AbstractTreeItem"),
  ("Axis", "qx.ui.virtual.core.Axis"),
  ("ILayer", "qx.ui.virtual.core.ILayer"),
  ("Pane", "qx.ui.virtual.core.Pane"),
  ("IDesktop", "qx.ui.window.IDesktop"),
  ("IWindowManager", "qx.ui.window.IWindowManager"),
  ("DateFormat", "qx.util.format.DateFormat"),
  ("Class", "qx.Class"),
  ("Interface", "qx.Interface"),
  ("Mixin", "qx.Mixin"),
  ("Theme", "qx.Theme"),
  ("Boolean", "boolean"),
  ("Number", "number"),
  ("String", "string"),
  ("document", "Document"),
  ("Stylesheet", "StyleSheet"),
  ("Element", "HTMLElement"),
  ("Object", "object"),
  ("Map", "Record<string, any>"),
  ("var", "unknown"),
  ("*", "unknown"),
  ("arguments", "unknown")]

/-- Members whose signature clashes with that of the superclass. -/
def defaultSuppressed : List (String × List String) := [
  ("qx.ui.virtual.core.CellEvent", ["init"]),
  ("qx.ui.table.columnmodel.resizebehavior.Default", ["set"]),
  ("qx.ui.progressive.renderer.table.Widths", ["set"]),
  ("qx.ui.table.columnmodel.resizebehavior", ["set"]),
  ("qx.ui.table.pane.CellEvent", ["init"]),
  ("qx.ui.mobile.dialog.Manager", ["error"]),
  ("qx.ui.mobile.container.Navigation", ["add"]),
  ("qx.ui.website.Table", ["filter", "sort"]),
  ("qx.ui.website.DatePicker", ["init", "sort"]),
  ("qx.event.type.Orientation", ["init"]),
  ("qx.event.type.KeySequence", ["init"]),
  ("qx.event.type.KeyInput", ["init"]),
  ("qx.event.type.GeoPosition", ["init"]),
  ("qx.event.type.Drag", ["init"]),
  ("qx.bom.request.SimpleXhr", ["addListener", "addListenerOnce"]),
  ("qx.event.dispatch.AbstractBubbling", ["dispatchEvent"]),
  ("qx.event.dispatch.Direct", ["dispatchEvent"]),
  ("qx.event.dispatch.MouseCapture", ["dispatchEvent"]),
  ("qx.event.type.Native", ["init"]),
  ("qx.html.Element", ["removeListener", "removeListenerById"]),
  ("qx.html.Flash", ["setAttribute"]),
  ("qx.util.LibraryManager", ["get", "set"])]

/-- What a run is told. -/
structure Config where
  output : String
  aliases : Table String
  /-- The members of a class that are written as comments. -/
  suppressed : Table (List String)
  /-- The file of base declarations; the bundled ones without it. -/
  baseTemplate : Option String
  /-- The time of generation; that of the clock without it. -/
  timestamp : Option String

namespace Config

/-- What a run is told when nobody tells it anything. -/
def default : Config :=
  ⟨defaultOutput, .ofList defaultAliases, .ofList defaultSuppressed, none, none⟩

instance : Inhabited Config := ⟨default⟩

/-- Another output file. -/
def withOutput (c : Config) (path : String) : Config := { c with output := path }

/-- One more alias, or another target for it. -/
def withAlias (c : Config) (name target : String) : Config :=
  { c with aliases := c.aliases.insert name target }

/-- One more member to comment out. -/
def withSuppressed (c : Config) (className member : String) : Config :=
  let members := (c.suppressed.get? className).getD []
  let members := if member ∈ members then members else members ++ [member]
  { c with suppressed := c.suppressed.insert className members }

/-- Other base declarations. -/
def withBaseTemplate (c : Config) (path : String) : Config :=
  { c with baseTemplate := some path }

/-- A fixed time of generation. -/
def withTimestamp (c : Config) (text : String) : Config := { c with timestamp := some text }

/-- The member of the class is written as a comment. -/
def isSuppressed (c : Config) (className member : String) : Bool :=
  ((c.suppressed.get? className).getD []).contains member

end Config

end Ambient
