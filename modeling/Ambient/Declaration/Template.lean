/-!
# Bundled base declarations

What every file starts with when no other base declarations are named: the
types that the declarations of a library take for granted.
-/

namespace Ambient

/-- The lines of the bundled base declarations. -/
def bundledTemplateLines : List String := [
  "// Ambient base declarations shared by every generated class declaration.",
  "",
  "/**",
  " * Constructor of a described class.",
  " */",
  "declare type QxConstructor<T = any> = new (...args: any[]) => T;",
  "",
  "/**",
  " * Configuration map passed to class, interface and mixin definitions.",
  " */",
  "declare interface IClassDefinition \x7b",
  "  extend?: QxConstructor;",
  "  implement?: any | any[];",
  "  include?: any | any[];",
  "  construct?: (...args: any[]) => void;",
  "  destruct?: () => void;",
  "  statics?: Record<string, any>;",
  "  members?: Record<string, any>;",
  "  properties?: Record<string, any>;",
  "  events?: Record<string, string>;",
  "  type?: \"static\" | \"abstract\" | \"singleton\";",
  "  defer?: (statics: any, members?: any, properties?: any) => void;",
  "\x7d",
  "",
  "/**",
  " * Property definition map.",
  " */",
  "declare interface IPropertyDefinition \x7b",
  "  check?: string | string[] | ((value: any) => boolean);",
  "  init?: any;",
  "  nullable?: boolean;",
  "  event?: string;",
  "  apply?: string;",
  "  themeable?: boolean;",
  "  inheritable?: boolean;",
  "  refine?: boolean;",
  "  async?: boolean;",
  "  group?: string[];",
  "\x7d"]

/-- The bundled base declarations; every line ends with a line break. -/
def bundledTemplate : String :=
  String.join (bundledTemplateLines.map (· ++ "\n"))

end Ambient
