/-! # Display lines

A unit of output: a text in a style. It is written as plain text, or as inline markup with the
text escaped and, outside prompts and tables, with line breaks as tags.
-/

namespace TableConsole

set_option autoImplicit false

inductive Style
  | prompt
  | value
  | table
  | text
  | comment
  | error
  deriving DecidableEq, Repr

def Style.cssClass : Style → String
  | .prompt => "text-[#0078d4]"
  | .value | .table => "text-white"
  | .text => "text-[#ce9178]"
  | .comment => "text-[#6A9955]"
  | .error => "text-[#d83b01]"

structure DisplayLine where
  style : Style
  text : String
  deriving DecidableEq, Repr

namespace DisplayLine

def prompt (statement : String) : DisplayLine := ⟨.prompt, statement⟩

def comment (text : String) : DisplayLine := ⟨.comment, text⟩

def error (message : String) : DisplayLine := ⟨.error, "Error: " ++ message⟩

def plain (line : DisplayLine) : String :=
  match line.style with
  | .prompt => "q) " ++ line.text
  | _ => line.text

def escapedChar (c : Char) : List Char :=
  if c = '&' then ['&', 'a', 'm', 'p', ';']
  else if c = '<' then ['&', 'l', 't', ';']
  else if c = '>' then ['&', 'g', 't', ';']
  else if c = '"' then ['&', 'q', 'u', 'o', 't', ';']
  else [c]

def escaped (s : String) : String :=
  String.ofList (s.toList.flatMap escapedChar)

def breakChar (c : Char) : List Char :=
  if c = '\n' then ['<', 'b', 'r', '>'] else escapedChar c

def escapedBreaks (s : String) : String :=
  String.ofList (s.toList.flatMap breakChar)

def opening (cssClass : String) : String :=
  "<div class=\"" ++ cssClass ++ "\">"

def markup (line : DisplayLine) : String :=
  match line.style with
  | .prompt =>
    opening Style.value.cssClass ++ "<span class=\"" ++ Style.prompt.cssClass ++ "\">q) </span>" ++
      escaped line.text ++ "</div>"
  | .table =>
    opening line.style.cssClass ++ "<pre>" ++ escaped line.text ++ "</pre></div>"
  | style => opening style.cssClass ++ escapedBreaks line.text ++ "</div>"

def render (markup : Bool) (line : DisplayLine) : String :=
  if markup then line.markup else line.plain

end DisplayLine

end TableConsole
