/-! Type names predefined by the DOORS environment, grouped by their first character. -/

namespace Dxl

/-- The predefined type names that start with the given character. -/
def builtinTypesStarting (initial : Char) : List String :=
  match initial with
  | 'A' =>
    ["ADABool_", "ADADefault_", "ADAString_", "ADAType_", "ADMABool_", "ADMAString_",
     "ATABaseType_", "ATABool_", "ATADesc_", "ATAEnumColour_", "ATAEnumColours_",
     "ATAEnumDesc_", "ATAEnumDescs_", "ATAEnumSize_", "ATAEnumString_", "ATAEnumStrings_",
     "ATAEnumValue_", "ATAEnumValues_", "ATAName_", "ATARangeValue_", "AccessRec",
     "AgentElement_", "AllAttrDefVal__", "AllAttrDef_", "AllAttrType_",
     "AllBaselineSetDefinition_", "AllBaselineSet_", "AllFolder_", "AllItem_", "AllModule_",
     "AllObj__", "AllObject_", "AllProject_", "AllRoot__", "AllView_", "AlternativeWord",
     "ArchiveData", "ArchiveInclusionDescriptor", "ArchiveItem", "ArchiveItemElementB_",
     "ArchiveItemElementS_", "ArchiveItemElementZ_", "Array", "ArraySect__", "Arrow__",
     "Attachment", "AttrBarsVal__", "AttrBaseType", "AttrDateVal__", "AttrDef", "AttrDefVal__",
     "AttrDef__", "AttrDescVal__", "AttrDxlVal__", "AttrHideVal__", "AttrHistVal__",
     "AttrInhVal__", "AttrLocaleVal__", "AttrMultiVal__", "AttrTop__", "AttrType", "AttrType__",
     "Attr__"]
  | 'B' =>
    ["Baseline", "BaselineSet", "BaselineSetDefinition", "Before__", "Below__", "Binary__",
     "Bitmap", "Buffer"]
  | 'C' =>
    ["CMS_Message", "CMS_MessageConsumer", "ClipboardLock", "Clipboard__", "Codepages__",
     "Column", "Comment", "CommentBool_", "CommentDate_", "CommentDiscussion_",
     "CommentModVer_", "CommentStatus_", "CommentString_", "CommentUser_", "ConfCachePolicy",
     "ConfDirectory__", "ConfStream", "ConfType", "ControlledResource__"]
  | 'D' =>
    ["DB", "DBE", "DOM_Document_", "DOM_Element_", "Database__", "Date", "DbPropertiesCache",
     "DdcMode", "DebugVar", "DialogDefaults", "Dictionary", "Directory__", "DiscDate_",
     "DiscModVer_", "DiscStatus_", "DiscString_", "DiscUser_", "Discussion", "DiscussionFilter",
     "DiscussionFilterType", "DiscussionStatus", "DisplaySchemes", "Document__", "DropEvent",
     "DropEventBool_", "DropEventDBE_", "DropEventInt_", "DropEventString_", "DxlObject",
     "DxlObjectLHS"]
  | 'E' =>
    ["EachInLinkRef__", "EmbeddedOleObject", "Entire__", "ExtLinkRef__", "ExternalLink",
     "ExternalLinkBehaviour", "ExternalLinkDirection"]
  | 'F' =>
    ["Fattr_", "Filter", "FilteredLdapGroupListRef__", "FilteredLdapUserListRef__",
     "FilteredLdapUserRef__", "Folder", "FolderRef__", "Fonts__"]
  | 'G' =>
    ["GrammarRules", "Group", "GroupElement_", "GroupList", "GroupRef__"]
  | 'H' =>
    ["HABool_", "HADate_", "HAInt_", "HAString_", "HAType_", "HAValue_", "HeaderEvent",
     "History", "HistorySession", "HistoryType", "HttpBody", "HttpBodyInt_", "HttpBodyString_",
     "HttpBody_", "HttpHeader", "HttpHeaderEntry", "HttpHeaderEntryString_", "HttpHeader_",
     "HttpResponse", "HttpResponseBool_", "HttpResponseInt_", "HttpVerb"]
  | 'I' =>
    ["IPC", "Icon", "IconID", "InLinkRef__", "InPartString_", "InPartition", "InPlaceBox__",
     "InPlaceEditEvent", "IntegrityCheckItem", "IntegrityItemType", "IntegrityProblem",
     "IntegrityResultsData", "Item"]
  | 'J' =>
    ["Justification"]
  | 'L' =>
    ["Language", "Languages__", "Last__", "LdapItem", "LdapItemList", "LdapItemString_", "Link",
     "LinkFilter", "LinkModuleDescriptor", "LinkRef", "Linkset", "Locale", "Locales__", "Lock",
     "LockElement_", "LockList", "LockRef__", "LoginPolicy", "LongDateFormats__"]
  | 'M' =>
    ["MA_End__", "MA_StdCombo__", "MA_StdItem__", "MA_StdMenu__", "ModName_", "Module",
     "ModuleProperties", "ModuleRef__", "ModuleVersion", "MsgExt"]
  | 'O' =>
    ["OAuthConsumer", "OAuthConsumerBool_", "OAuthConsumerString_",
     "OSLCCatalogServiceProvider", "OSLCCatalogServiceProviderString_", "OSLCLinkType",
     "OSLCLinkTypeBool_", "OSLCLinkTypeString_", "OSLCServer", "OSLCServerBool_",
     "OSLCServerString_", "OSLCServiceProvider", "OSLCServiceProviderDialog",
     "OSLCServiceProviderDialogBool_", "OSLCServiceProviderDialogInt_",
     "OSLCServiceProviderDialogString_", "OSLCServiceProviderDialog_",
     "OSLCServiceProviderDialogs", "OSLCServiceProviderDialogs_", "OSLCServiceProviderString_",
     "Object", "ObjectRef__", "OleAutoArgs", "OleAutoObj", "OutLinkRef__", "OutPartString_",
     "OutPartition"]
  | 'P' =>
    ["PageLayout", "PageLayouts_", "PartAttrString_", "PartDefString_", "PartFileString_",
     "PartModString_", "PartViewString_", "PartitionAttribute", "PartitionDefinition",
     "PartitionFile", "PartitionLinkset", "PartitionModule", "PartitionPermission",
     "PartitionView", "Permission", "Picture__", "ProblemItem", "Project"]
  | 'R' =>
    ["RTFCharset_", "RTFEmbeddedOLE_", "RTFInt_", "RTFString_", "RTFText_",
     "RTF_buffer_No_Ole__", "RTF_buffer_With_Ole__", "RTF_buffer__", "RTF_string__", "Range_",
     "RecentModule__", "Regexp", "ReservedName__", "RichText", "RichTextParagraph",
     "RifDefinition", "RifDefinitionBool_", "RifDefinitionProject_", "RifDefinitionString_",
     "RifExportPackage", "RifExportRecord", "RifExportRecordDate_", "RifExportRecordDef_",
     "RifExportRecordString_", "RifExportRecordUser_", "RifImport", "RifImportBool_",
     "RifImportDate_", "RifImportDef_", "RifImportFolderInfo", "RifImportFolderInfoString_",
     "RifImportFolder_", "RifImportModuleInfo", "RifImportModuleInfoString_",
     "RifImportPackage", "RifImportPackageString_", "RifImportUser_", "RifModuleDefinition",
     "RifModuleDefinitionBool_", "RifModuleDefinitionDdcMode_", "RifModuleDefinitionInt_",
     "RifModuleDefinitionString_", "RifModuleDefinitionVersion_", "Root__", "RowRef__"]
  | 'S' =>
    ["Script__", "ScrollDest__", "ScrollEvent", "ScrollSide", "ScrollUpDown__", "Scroll__",
     "Sensitivity", "SessionModule_", "SessionObject_", "ShortDateFormats__", "Sibling__",
     "SignatureEntry", "SignatureInfo", "SignatureInfoSpecifier__", "Skip", "Sort",
     "SpellingAlternatives__", "SpellingError", "SpellingErrors__", "SpellingOptions", "Stat",
     "Stream", "Symbolic__"]
  | 'T' =>
    ["TableBorderPosition", "TableBorderStyle", "TableRef__", "Template", "TemplateB__",
     "TokenReader", "TokenWriter", "ToolType", "Trigger", "TriggerStatus"]
  | 'U' =>
    ["User", "UserClass", "UserElement_", "UserList", "UserNotifyList", "UserRef__"]
  | 'V' =>
    ["View", "ViewDef", "Views_"]
  | 'W' =>
    ["Window__"]
  | 'Z' =>
    ["ZipType"]
  | '_' =>
    ["_*", "_a", "_b", "_c", "_d", "_f", "_k", "_m", "_n", "_w", "_x", "_xr", "_xx", "_y"]
  | 'g' =>
    ["glueOn1__", "glueOn2__"]
  | 't' =>
    ["trigEvent_", "trigLevelDesc_", "trigLevelMod_", "trigLevel_", "trigType_"]
  | _ => []

/-- A name is predefined when it is listed under its first character. -/
def isBuiltinType (name : String) : Bool :=
  -- The empty name has no first character and names no type.
  match name.toList with
  | [] => false
  | initial :: _ => (builtinTypesStarting initial).contains name

end Dxl
